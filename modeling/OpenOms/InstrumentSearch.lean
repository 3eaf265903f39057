import OpenOms.Library.Like
import OpenOms.Library.Lists
import Mathlib.Data.List.Perm.Basic
import Mathlib.Data.Rat.Defs

/-!
The instrument search behind the admin's catalog and the order ticket: a text looked for
by patterns, and the same text looked for as it stands. `lower` and `upper` fold a letter's
case, and `collate` orders symbols.
-/
namespace OmsSearch
open Like Lists

structure Instrument where
  id : Int
  symbol : String
  name : String
  venue : String
  assetClass : String
  instrumentClass : String
  status : String
  deriving DecidableEq, Repr

structure WatchlistItem where
  principalId : Nat
  instrumentId : String
  deriving DecidableEq, Repr

structure Position where
  portfolioId : Nat
  instrumentId : String
  netQty : ℚ
  deriving DecidableEq, Repr

structure Grant where
  principalId : Nat
  portfolioId : Nat
  canView : Bool
  deriving DecidableEq, Repr

structure Order where
  principalId : Option Nat
  instrumentId : String
  deriving DecidableEq, Repr

structure Derivative where
  underlyingId : Option Int
  underlyingSymbol : Option String
  deriving DecidableEq, Repr

structure Catalog where
  instruments : List Instrument
  derivatives : List Derivative
  watchlist : List WatchlistItem
  positions : List Position
  grants : List Grant
  orders : List Order
  deriving DecidableEq, Repr

structure InstrumentSummary extends Instrument where
  hasOptions : Bool
  deriving DecidableEq, Repr

variable (lower upper : Char → Char) (collate : String → String → Bool)

def clampLimit (limit : Option Int) : Nat := (max 1 (min 200 (limit.getD 50))).toNat

def backslash : Char := Char.ofNat 92

def sql : Special Char := ⟨'%', '_', backslash, by decide, by decide, by decide⟩

def replace (text : List Char) (c : Char) (new : List Char) : List Char :=
  text.flatMap fun x => if x = c then new else [x]

def escapeLike (search : List Char) : List Char :=
  let slashed := replace search backslash [backslash, backslash]
  let percented := replace slashed '%' [backslash, '%']
  replace percented '_' [backslash, '_']

def ilike (text : String) (pattern : List Char) : Bool :=
  ((like sql (pattern.map lower) (text.toList.map lower))).getD false

def mine (c : Catalog) : Option Nat → List String
  | none => []
  | some principal =>
    (c.watchlist.filter (·.principalId = principal)).map (·.instrumentId) ++
      (c.positions.filter fun p => p.netQty ≠ 0 && c.grants.any fun g =>
        g.principalId = principal && g.canView && g.portfolioId = p.portfolioId).map (·.instrumentId) ++
      (c.orders.filter (·.principalId = some principal)).map (·.instrumentId)

def hasOptions (c : Catalog) (i : Instrument) : Bool :=
  c.derivatives.any fun d => d.underlyingId = some i.id || d.underlyingSymbol = some i.symbol

def upperText (text : String) : List Char := text.toList.map upper

def matchQuality (search : Option String) (i : Instrument) : Nat :=
  match search with
  | none => 0
  | some text =>
    let escaped := escapeLike text.toList
    if upperText upper i.symbol = upperText upper text then 0
    else if ilike lower i.symbol (escaped ++ ['%']) then 1
    else if ilike lower i.name (escaped ++ ['%']) || ilike lower i.name (['%', ' '] ++ escaped ++ ['%'])
    then 2
    else 3

def isMatch (search : Option String) (i : Instrument) : Bool :=
  i.status = "ACTIVE" && search.all fun text =>
    let pattern := ['%'] ++ escapeLike text.toList ++ ['%']
    ilike lower i.symbol pattern || ilike lower i.name pattern

def by_ (key : Instrument → Nat) (next : Instrument → Instrument → Bool) (a b : Instrument) : Bool :=
  if key a = key b then next a b else key a < key b

def before (quality : Instrument → Nat) (own : List String) : Instrument → Instrument → Bool :=
  by_ quality <|
    by_ (fun i => if toString i.id ∈ own then 0 else 1) <|
    by_ (fun i => if i.instrumentClass = "OPTION" then 1 else 0) <|
    by_ (fun i => i.symbol.length) fun a b => collate a.symbol b.symbol

def searchInstruments (c : Catalog) (search : Option String) (limit : Option Int)
    (principal : Option Nat) : List InstrumentSummary :=
  let found := c.instruments.filter (isMatch lower search)
  let sorted := found.mergeSort (before collate (matchQuality lower upper search) (mine c principal))
  (sorted.take (clampLimit limit)).map fun i => ⟨i, hasOptions c i⟩

def Within (text whole : String) : Prop := text.toList.map lower <:+: whole.toList.map lower

def Starts (text whole : String) : Prop := text.toList.map lower <+: whole.toList.map lower

instance (text whole : String) : Decidable (Within lower text whole) := by
  unfold Within
  infer_instance

instance (text whole : String) : Decidable (Starts lower text whole) := by
  unfold Starts
  infer_instance

/-- How well the text as it stands is matched: by the whole symbol, by the symbol's start,
    by the start of one of the name's words, or within. -/
def literalQuality (search : Option String) (i : Instrument) : Nat :=
  match search with
  | none => 0
  | some text =>
    if upperText upper i.symbol = upperText upper text then 0
    else if Starts lower text i.symbol then 1
    else if Starts lower text i.name ∨ Within lower (" " ++ text) i.name then 2
    else 3

def Matches (search : Option String) (i : Instrument) : Prop :=
  i.status = "ACTIVE" ∧ ∀ text ∈ search, Within lower text i.symbol ∨ Within lower text i.name

instance (search : Option String) (i : Instrument) : Decidable (Matches lower search i) := by
  unfold Matches
  infer_instance

/-- The case folding leaves the letters of patterns alone and makes none. -/
structure Folds : Prop where
  keeps : ∀ c, sql.among c = true → lower c = c
  plain : ∀ c, sql.among (lower c) = true → sql.among c = true

structure Collates : Prop where
  trans : ∀ a b c, collate a b = true → collate b c = true → collate a c = true
  total : ∀ a b, (collate a b || collate b a) = true

/-- A page of the instruments that have the text in their symbol or name, by how well they
    have it: with those left off it is each of them once, and none left off comes before
    one on it. -/
structure Page (c : Catalog) (search : Option String) (limit : Option Int) (principal : Option Nat)
    (page : List InstrumentSummary) : Prop where
  first : ∃ rest, (page.map (·.toInstrument) ++ rest).Perm
      (c.instruments.filter (Matches lower search ·)) ∧
    ∀ x ∈ page, ∀ i ∈ rest, before collate (literalQuality lower upper search) (mine c principal)
      x.toInstrument i = true
  ordered : page.Pairwise fun x y =>
    before collate (literalQuality lower upper search) (mine c principal) x.toInstrument
      y.toInstrument = true
  full : page.length = min (clampLimit limit) (c.instruments.filter (Matches lower search ·)).length
  options : ∀ x ∈ page, x.hasOptions = hasOptions c x.toInstrument

variable {lower upper collate}

theorem escape_like (text : List Char) : escapeLike text = escaped sql text := by
  unfold escapeLike replace escaped
  rw [List.flatMap_assoc, List.flatMap_assoc]
  refine List.flatMap_congr fun c _ => ?_
  by_cases slash : c = backslash
  · subst slash
    decide
  · by_cases percent : c = '%'
    · subst percent
      decide
    · by_cases under : c = '_'
      · subst under
        decide
      · simp [slash, percent, under, Special.among, sql]

theorem escaped_folded (folds : Folds lower) (text : List Char) :
    (escaped sql text).map lower = escaped sql (text.map lower) := by
  unfold escaped
  rw [List.map_flatMap, List.flatMap_map]
  refine List.flatMap_congr fun c _ => ?_
  cases special : sql.among c with
  | true =>
    have slash : lower backslash = backslash := folds.keeps _ (by decide)
    rw [folds.keeps c special, special]
    show [lower backslash, lower c] = _
    rw [slash, folds.keeps c special]
    rfl
  | false =>
    have plain : sql.among (lower c) = false := by
      cases folded : sql.among (lower c) with
      | false => rfl
      | true =>
        rw [folds.plain c folded] at special
        cases special
    rw [plain]
    rfl

theorem percent_folded (folds : Folds lower) : lower '%' = '%' := folds.keeps _ (by decide)

theorem ilike_starts (folds : Folds lower) (text whole : String) :
    ilike lower whole (escapeLike text.toList ++ ['%']) = decide (Starts lower text whole) := by
  rw [ilike, List.map_append, escape_like, escaped_folded folds, List.map_singleton,
    percent_folded folds]
  exact congrArg (Option.getD · false) (like_starts _ _)

theorem ilike_within (folds : Folds lower) (text whole : String) :
    ilike lower whole (['%'] ++ escapeLike text.toList ++ ['%']) = decide (Within lower text whole) := by
  rw [ilike, List.map_append, List.map_append, escape_like, escaped_folded folds, List.map_singleton,
    percent_folded folds]
  exact congrArg (Option.getD · false) (@like_within _ _ sql [] nofun _ _)

theorem ilike_word (folds : Folds lower) (text whole : String) :
    ilike lower whole (['%', ' '] ++ escapeLike text.toList ++ ['%']) =
      decide (Within lower (" " ++ text) whole) := by
  have plain : ∀ a ∈ [lower ' '], sql.among a = false := by
    intro a there
    rw [List.mem_singleton.mp there]
    cases special : sql.among (lower ' ') with
    | false => rfl
    | true => exact absurd (folds.plain _ special) (by decide)
  have spaced : (" " ++ text).toList.map lower = [lower ' '] ++ text.toList.map lower := by
    rw [String.toList_append, List.map_append]
    rfl
  rw [ilike, List.map_append, List.map_append, escape_like, escaped_folded folds, List.map_singleton,
    percent_folded folds]
  unfold Within
  simp only [spaced]
  show (like sql (lower '%' :: [lower ' '] ++ escaped sql (text.toList.map lower) ++ ['%']) _).getD
    false = _
  rw [percent_folded folds]
  exact congrArg (Option.getD · false) (like_within plain _ _)

theorem quality_literal (folds : Folds lower) (search : Option String) :
    matchQuality lower upper search = literalQuality lower upper search := by
  funext i
  cases search with
  | none => rfl
  | some text =>
    simp only [matchQuality, literalQuality, ilike_starts folds, ilike_word folds, Bool.or_eq_true,
      decide_eq_true_eq]

theorem match_literal (folds : Folds lower) (search : Option String) (i : Instrument) :
    isMatch lower search i = decide (Matches lower search i) := by
  rw [Bool.eq_iff_iff, decide_eq_true_eq]
  cases search with
  | none => simp [isMatch, Matches]
  | some text =>
    simp only [isMatch, Matches, Option.all_some, ilike_within folds, Bool.and_eq_true,
      Bool.or_eq_true, decide_eq_true_eq, Option.mem_some_iff, forall_eq']

theorem by_trans {key : Instrument → Nat} {next : Instrument → Instrument → Bool}
    (trans : ∀ a b c, next a b = true → next b c = true → next a c = true) (a b c : Instrument)
    (left : by_ key next a b = true) (right : by_ key next b c = true) :
    by_ key next a c = true := by
  unfold by_ at *
  split at left
  · rename_i ab
    split at right
    · rename_i bc
      rw [if_pos (ab.trans bc)]
      exact trans a b c left right
    · rename_i bc
      rw [if_neg (by omega)]
      rw [ab]
      exact right
  · rename_i ab
    rw [decide_eq_true_eq] at left
    split at right
    · rename_i bc
      rw [if_neg (by omega), decide_eq_true_eq]
      omega
    · rename_i bc
      rw [decide_eq_true_eq] at right
      rw [if_neg (by omega), decide_eq_true_eq]
      omega

theorem by_total {key : Instrument → Nat} {next : Instrument → Instrument → Bool}
    (total : ∀ a b, (next a b || next b a) = true) (a b : Instrument) :
    (by_ key next a b || by_ key next b a) = true := by
  unfold by_
  by_cases same : key a = key b
  · rw [if_pos same, if_pos same.symm]
    exact total a b
  · rw [if_neg same, if_neg (Ne.symm same), Bool.or_eq_true, decide_eq_true_eq, decide_eq_true_eq]
    omega

theorem before_trans (collates : Collates collate) (quality : Instrument → Nat) (own : List String) :
    ∀ a b c, before collate quality own a b = true → before collate quality own b c = true →
      before collate quality own a c = true :=
  by_trans <| by_trans <| by_trans <| by_trans fun _ _ _ => collates.trans _ _ _

theorem before_total (collates : Collates collate) (quality : Instrument → Nat) (own : List String) :
    ∀ a b, (before collate quality own a b || before collate quality own b a) = true :=
  by_total <| by_total <| by_total <| by_total fun _ _ => collates.total _ _

theorem sorted_page {c : Catalog} {search : Option String} {principal : Option Nat}
    {sorted : List Instrument} (limit : Option Int)
    (perm : sorted.Perm (c.instruments.filter (Matches lower search ·)))
    (ordered : sorted.Pairwise fun a b =>
      before collate (literalQuality lower upper search) (mine c principal) a b = true) :
    Page lower upper collate c search limit principal
      ((sorted.take (clampLimit limit)).map fun i => ⟨i, hasOptions c i⟩) where
  first := by
    refine ⟨sorted.drop (clampLimit limit), ?_, ?_⟩
    · have shown : (sorted.take (clampLimit limit)).map (fun i => i) = _ := List.map_id _
      rw [List.map_map, Function.comp_def, shown, List.take_append_drop]
      exact perm
    · intro x there i left
      obtain ⟨j, taken, rfl⟩ := List.mem_map.mp there
      exact @take_before _ _ _ _ j i ordered taken left
  ordered := by
    rw [List.pairwise_map]
    exact ordered.sublist (List.take_sublist _ _)
  full := by rw [List.length_map, List.length_take, perm.length_eq]
  options := by
    intro x there
    obtain ⟨i, _, rfl⟩ := List.mem_map.mp there
    rfl

theorem among_sql {c : Char} : sql.among c = true ↔ c = '%' ∨ c = '_' ∨ c = backslash :=
  among_iff

theorem ascii_folds : Folds Char.toLower where
  keeps c special := by
    rcases among_sql.mp special with rfl | rfl | rfl <;> decide
  plain c special := by
    unfold Char.toLower at special
    split at special
    · rename_i upper
      have least : 65 ≤ c.val.toNat := UInt32.le_iff_toNat_le.mp upper.1
      have most : c.val.toNat ≤ 90 := UInt32.le_iff_toNat_le.mp upper.2
      have shifted : (c.val + 32).toNat = c.val.toNat + 32 := by
        rw [UInt32.toNat_add]
        show (c.val.toNat + 32) % 2 ^ 32 = _
        omega
      have letter : ∀ d : Char, d.val.toNat < 97 → ¬ (c.val + 32 = d.val) := by
        intro d small same
        rw [same] at shifted
        omega
      rcases among_sql.mp special with own | own | own
      · exact absurd (congrArg Char.val own) (letter '%' (by decide))
      · exact absurd (congrArg Char.val own) (letter '_' (by decide))
      · exact absurd (congrArg Char.val own) (letter backslash (by decide))
    · exact special

theorem codepoints_collate : Collates fun a b => decide (a ≤ b) where
  trans a b c left right := by
    simp only [decide_eq_true_eq] at *
    exact String.le_trans left right
  total a b := by
    simp only [Bool.or_eq_true, decide_eq_true_eq]
    exact String.le_total a b

def oddCatalog : Catalog where
  instruments := [⟨1, "A_B", "Odd Pair", "X", "FX", "SPOT", "ACTIVE"⟩,
    ⟨2, "AXB", "Other Pair", "X", "FX", "SPOT", "ACTIVE"⟩]
  derivatives := []
  watchlist := []
  positions := []
  grants := []
  orders := []

end OmsSearch
