import OpenOms.Library.Utf8
import OpenOms.MarketData.Symbology

/-!
The OPRA feed's symbols: from the compact form the master stores to the padded one on
the wire, for whatever text stands in the master.
-/
namespace OmsOpra
open OmsMarketData Utf8

def osiTail : Nat := 15

def toFeedSymbol (symbol : Symbol) : Except Panic (Option Symbol) :=
  if len symbol ≤ osiTail then .ok none
  else
    match cut symbol (len symbol - osiTail) with
    | none => .error .notACharBoundary
    | some (root, tail) => .ok (some (root.rightpad 6 ' ' ++ tail))

def databentoOpraFeed : FeedSymbology where
  candidates :=
    { instrumentClass := some "OPTION"
      assetClass := none
      venue := some "OPRA" }
  toFeedSymbol := toFeedSymbol

structure Contract where
  root : Symbol
  date : Symbol
  side : Char
  strike : Symbol
  root_named : root ≠ [] ∧ ' ' ∉ root
  root_fits : root.length ≤ 6
  date_digits : date.length = 6 ∧ ∀ c ∈ date, c.isDigit = true
  side_known : side = 'C' ∨ side = 'P'
  strike_digits : strike.length = 8 ∧ ∀ c ∈ strike, c.isDigit = true

def Contract.tail (c : Contract) : Symbol := c.date ++ c.side :: c.strike

def Contract.osi (c : Contract) : Symbol := c.root.rightpad 6 ' ' ++ c.tail

/-- The master's forms of it: any blanks after the root, as far as there is room. -/
def Contract.Spelt (c : Contract) (symbol : Symbol) : Prop :=
  ∃ blanks, c.root.length + blanks ≤ 6 ∧
    symbol = c.root ++ List.replicate blanks ' ' ++ c.tail

/-- Nothing panics, every key is an OSI symbol, and each instrument's quotes go out
    under the id of one with its own symbol. -/
def Exact (held : Held) : Prop :=
  ∃ map, covered databentoOpraFeed held = .ok map ∧
    (∀ key ∈ map, ∃ c : Contract, key = c.osi) ∧
    (∀ i ∈ held.values, ∀ j ∈ held.values, ∀ key, calls databentoOpraFeed key i = true →
      calls databentoOpraFeed key j = true → i.symbol = j.symbol) ∧
    ∀ i ∈ held.values, ∀ key, calls databentoOpraFeed key i = true →
      ∃ j ∈ held.values, j.symbol = i.symbol ∧ map[key]? = some j.id

def Legible (symbol : Symbol) : Prop := len symbol ≤ osiTail ∨ ∃ c : Contract, c.Spelt symbol

/-- The OPRA options are legible, and no contract among them is spelt in two ways. -/
def SpeltOnce (held : Held) : Prop :=
  (∀ i ∈ held.values, databentoOpraFeed.candidates.admits i = true → Legible i.symbol) ∧
    ∀ i ∈ held.values, ∀ j ∈ held.values, databentoOpraFeed.candidates.admits i = true →
      databentoOpraFeed.candidates.admits j = true →
      ∀ c : Contract, c.Spelt i.symbol → c.Spelt j.symbol → i.symbol = j.symbol

theorem digit_single {c : Char} (digit : c.isDigit = true) : c.utf8Size = 1 := by
  rw [Char.utf8Size_eq_one_iff]
  simp only [Char.isDigit, Bool.and_eq_true, decide_eq_true_eq] at digit
  exact UInt32.le_trans digit.2 (by decide)

theorem tail_single (c : Contract) : ∀ char ∈ c.tail, char.utf8Size = 1 := by
  intro char member
  rcases List.mem_append.mp member with inDate | rest
  · exact digit_single (c.date_digits.2 char inDate)
  · rcases List.mem_cons.mp rest with isSide | inStrike
    · rw [isSide]
      cases c.side_known with
      | inl call => rw [call]; decide
      | inr put => rw [put]; decide
    · exact digit_single (c.strike_digits.2 char inStrike)

theorem tail_length (c : Contract) : c.tail.length = osiTail := by
  rw [Contract.tail, List.length_append, List.length_cons, c.date_digits.1, c.strike_digits.1]
  rfl

theorem tail_len (c : Contract) : len c.tail = osiTail := by
  rw [len_of_single (tail_single c), tail_length]

theorem padded_length (c : Contract) : (c.root.rightpad 6 ' ').length = 6 := by
  rw [List.length_rightpad]
  exact Nat.max_eq_left c.root_fits

/-- Fixed width: six of the root and fifteen of the rest. -/
theorem osi_length (c : Contract) : c.osi.length = 21 := by
  rw [Contract.osi, List.length_append, padded_length, tail_length]
  rfl

theorem pads_to_word {root word : Symbol} (named : ' ' ∉ word) (fits : word.length ≤ 6)
    (same : root.rightpad 6 ' ' = word.rightpad 6 ' ') :
    ∃ blanks, word.length + blanks ≤ 6 ∧ root = word ++ List.replicate blanks ' ' := by
  have width := congrArg List.length same
  rw [List.length_rightpad, List.length_rightpad] at width
  have short : root.length ≤ 6 := by omega
  unfold List.rightpad at same
  rcases List.append_eq_append_iff.mp same with ⟨rest, isWord, padding⟩ | ⟨rest, isRoot, padding⟩
  · have empty : rest = [] := by
      cases rest with
      | nil => rfl
      | cons c rest =>
        have blank : c = ' ' := by
          have member : c ∈ List.replicate (6 - root.length) ' ' := by simp [padding]
          exact (List.mem_replicate.mp member).2
        exact absurd (by simp [isWord, blank]) named
    refine ⟨0, by omega, ?_⟩
    simp [isWord, empty]
  · have blanks : rest = List.replicate rest.length ' ' := by
      rw [List.eq_replicate_iff]
      constructor
      · rfl
      · intro c member
        have also : c ∈ List.replicate (6 - word.length) ' ' := by simp [padding, member]
        exact (List.mem_replicate.mp also).2
    refine ⟨rest.length, ?_, ?_⟩
    · rw [isRoot, List.length_append] at short
      exact short
    · rw [← blanks]
      exact isRoot

theorem feed_symbol_iff (c : Contract) (symbol : Symbol) :
    toFeedSymbol symbol = .ok (some c.osi) ↔ c.Spelt symbol := by
  constructor
  · intro called
    unfold toFeedSymbol at called
    split at called
    · cases called
    · rename_i long
      split at called
      · cases called
      · rename_i root tail parts
        obtain ⟨joined, measured⟩ := (cut_iff _ _ _ _).mp parts
        have tailLen : len tail = osiTail := by
          have whole := congrArg len joined
          rw [len_append] at whole
          omega
        have same : root.rightpad 6 ' ' ++ tail = c.root.rightpad 6 ' ' ++ c.tail := by
          simpa [Contract.osi] using called
        have wide : 6 ≤ (root.rightpad 6 ' ').length := by
          rw [List.length_rightpad]
          exact Nat.le_max_left _ _
        obtain ⟨between, padded, tails⟩ : ∃ between,
            root.rightpad 6 ' ' = c.root.rightpad 6 ' ' ++ between ∧ c.tail = between ++ tail := by
          rcases List.append_eq_append_iff.mp same with ⟨more, front, back⟩ | both
          · have lengths := congrArg List.length front
            rw [padded_length, List.length_append] at lengths
            have none_ : more = [] := List.eq_nil_of_length_eq_zero (by omega)
            refine ⟨[], ?_, ?_⟩
            · rw [front, none_, List.append_nil, List.append_nil]
            · rw [back, none_]
              rfl
          · exact both
        have all : len tail = tail.length := len_of_single fun char member =>
          tail_single c char (by simp [tails, member])
        have nothing : between = [] := by
          have lengths := congrArg List.length tails
          rw [tail_length, List.length_append] at lengths
          exact List.eq_nil_of_length_eq_zero (by omega)
        rw [nothing, List.append_nil] at padded
        rw [nothing, List.nil_append] at tails
        obtain ⟨blanks, room, isRoot⟩ := pads_to_word c.root_named.2 c.root_fits padded
        refine ⟨blanks, room, ?_⟩
        rw [← joined, isRoot, tails]
  · intro spelt
    obtain ⟨blanks, room, rfl⟩ := spelt
    have some_ : 0 < len (c.root ++ List.replicate blanks ' ') := by
      have long := length_le_len (c.root ++ List.replicate blanks ' ')
      have first := List.length_pos_of_ne_nil c.root_named.1
      rw [List.length_append] at long
      omega
    have total : len (c.root ++ List.replicate blanks ' ' ++ c.tail) =
        len (c.root ++ List.replicate blanks ' ') + osiTail := by
      rw [len_append, tail_len]
    have padded : (c.root ++ List.replicate blanks ' ').rightpad 6 ' ' =
        c.root.rightpad 6 ' ' := by
      rw [List.rightpad, List.rightpad, List.append_assoc, List.replicate_append_replicate,
        List.length_append, List.length_replicate]
      congr 2
      omega
    unfold toFeedSymbol
    rw [if_neg (by omega), total, Nat.add_sub_cancel, cut_append]
    simp only
    rw [padded]
    rfl

theorem declined_iff (symbol : Symbol) : toFeedSymbol symbol = .ok none ↔ len symbol ≤ osiTail := by
  unfold toFeedSymbol
  constructor
  · intro declined
    split at declined
    · assumption
    · split at declined <;> cases declined
  · intro short
    rw [if_pos short]

theorem osi_injective {c d : Contract} (same : c.osi = d.osi) :
    c.root = d.root ∧ c.tail = d.tail := by
  obtain ⟨padded, tails⟩ := List.append_inj same (by rw [padded_length, padded_length])
  obtain ⟨blanks, -, isRoot⟩ := pads_to_word d.root_named.2 d.root_fits padded
  have none_ : blanks = 0 := by
    cases blanks with
    | zero => rfl
    | succ blanks => exact absurd (by simp [isRoot]) c.root_named.2
  constructor
  · simp [isRoot, none_]
  · exact tails

theorem feed_symbol_of_instrument (i : InstrumentRef) :
    feedSymbol databentoOpraFeed i =
      if databentoOpraFeed.candidates.admits i then toFeedSymbol i.symbol else .ok none := by
  unfold feedSymbol covers
  cases databentoOpraFeed.candidates.admits i with
  | false => rfl
  | true =>
    simp only [if_true]
    show (do if ← (toFeedSymbol i.symbol).map Option.isSome then toFeedSymbol i.symbol
             else .ok none) = toFeedSymbol i.symbol
    cases toFeedSymbol i.symbol with
    | error panic => rfl
    | ok found => cases found <;> rfl

theorem calls_iff (key : Symbol) (i : InstrumentRef) : calls databentoOpraFeed key i = true ↔
    databentoOpraFeed.candidates.admits i = true ∧ toFeedSymbol i.symbol = .ok (some key) := by
  unfold calls
  rw [feed_symbol_of_instrument]
  cases databentoOpraFeed.candidates.admits i with
  | false => simp
  | true =>
    simp only [if_true, true_and]
    cases toFeedSymbol i.symbol with
    | error panic => simp
    | ok found => cases found <;> simp

theorem legible_called {i : InstrumentRef} {key : Symbol} (legible : Legible i.symbol)
    (called : calls databentoOpraFeed key i = true) :
    ∃ c : Contract, key = c.osi ∧ c.Spelt i.symbol := by
  obtain ⟨-, answer⟩ := (calls_iff key i).mp called
  cases legible with
  | inl short => cases answer.symm.trans ((declined_iff i.symbol).mpr short)
  | inr contract =>
    obtain ⟨c, spells⟩ := contract
    have osi := (feed_symbol_iff c i.symbol).mpr spells
    rw [answer, Except.ok.injEq, Option.some.injEq] at osi
    exact ⟨c, osi, spells⟩

theorem legible_answers {symbol : Symbol} (legible : Legible symbol) :
    ∃ its, toFeedSymbol symbol = .ok its := by
  cases legible with
  | inl short => exact ⟨none, (declined_iff symbol).mpr short⟩
  | inr contract =>
    obtain ⟨c, spells⟩ := contract
    exact ⟨some c.osi, (feed_symbol_iff c symbol).mpr spells⟩

/-- The whole held set is priced exactly when its OPRA options are legible and no
    contract is spelt in two ways. -/
theorem opra_exact_iff (held : Held) : Exact held ↔ SpeltOnce held := by
  constructor
  · intro exact_
    obtain ⟨map, covers_, keys, apart, -⟩ := exact_
    constructor
    · intro i member admits
      obtain ⟨its, answer⟩ := (covered_iff _ held).mp ⟨map, covers_⟩ i member
      rw [feed_symbol_of_instrument, if_pos admits] at answer
      cases its with
      | none => exact Or.inl ((declined_iff i.symbol).mp answer)
      | some key =>
        have called := (calls_iff key i).mpr ⟨admits, answer⟩
        obtain ⟨c, rfl⟩ := keys key ((mem_covered covers_ key).mpr ⟨i, member, called⟩)
        exact Or.inr ⟨c, (feed_symbol_iff c i.symbol).mp answer⟩
    · intro i here j also admits admitsToo c spelt speltToo
      refine apart i here j also c.osi ?_ ?_
      · exact (calls_iff _ i).mpr ⟨admits, (feed_symbol_iff c i.symbol).mpr spelt⟩
      · exact (calls_iff _ j).mpr ⟨admitsToo, (feed_symbol_iff c j.symbol).mpr speltToo⟩
  · intro spelt
    obtain ⟨legible, once⟩ := spelt
    have apart : ∀ i ∈ held.values, ∀ j ∈ held.values, ∀ key,
        calls databentoOpraFeed key i = true → calls databentoOpraFeed key j = true →
        i.symbol = j.symbol := by
      intro i here j also key called calledToo
      obtain ⟨admits, answer⟩ := (calls_iff key i).mp called
      obtain ⟨admitsToo, answerToo⟩ := (calls_iff key j).mp calledToo
      obtain ⟨c, isKey, -⟩ := legible_called (legible i here admits) called
      rw [isKey] at answer answerToo
      exact once i here j also admits admitsToo c ((feed_symbol_iff c _).mp answer)
        ((feed_symbol_iff c _).mp answerToo)
    have answers : ∀ i ∈ held.values, ∃ its, feedSymbol databentoOpraFeed i = .ok its := by
      intro i member
      rw [feed_symbol_of_instrument]
      split
      · rename_i admits
        exact legible_answers (legible i member admits)
      · exact ⟨none, rfl⟩
    obtain ⟨map, covers_⟩ := (covered_iff databentoOpraFeed held).mpr answers
    refine ⟨map, covers_, ?_, apart, ?_⟩
    · intro key there
      obtain ⟨i, member, called⟩ := (mem_covered covers_ key).mp there
      have admits := ((calls_iff key i).mp called).1
      obtain ⟨c, isKey, -⟩ := legible_called (legible i member admits) called
      exact ⟨c, isKey⟩
    · intro i here key called
      cases last : held.values.reverse.find? (calls databentoOpraFeed key) with
      | none =>
        exact absurd called (List.find?_eq_none.mp last i (List.mem_reverse.mpr here))
      | some j =>
        have also := List.mem_reverse.mp (List.mem_of_find?_eq_some last)
        refine ⟨j, also, apart j also i here key (List.find?_some last) called, ?_⟩
        rw [covered_get covers_, last]
        rfl

def option (id : Int) (symbol : String) : InstrumentRef :=
  ⟨id, symbol.toList, some "OPTION", none, some "OPRA"⟩

def longRoot : Held := (∅ : Held).insert 1 (option 1 "GOOGL1W260724P00739000")

/-- A root of seven characters leaves no padding and is not cut: 22 characters. -/
theorem long_root_not_exact : ¬ Exact longRoot := by
  intro exact_
  obtain ⟨map, covers_, keys, -⟩ := exact_
  have isMap : covered databentoOpraFeed longRoot =
      .ok ((∅ : SymbolAdds).insert "GOOGL1W260724P00739000".toList 1) := rfl
  rw [isMap] at covers_
  cases covers_
  obtain ⟨c, isKey⟩ := keys "GOOGL1W260724P00739000".toList (by simp)
  have wide := congrArg List.length isKey
  rw [osi_length] at wide
  exact absurd wide (by decide)

/-- The cut falls inside a character. -/
example : toFeedSymbol "ééééééééé".toList = .error .notACharBoundary := by decide

/-- Two spellings of one contract, one feed symbol. -/
example : toFeedSymbol "SPY260724P00739000".toList =
    toFeedSymbol "SPY   260724P00739000".toList := by decide

end OmsOpra
