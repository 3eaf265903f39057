import OpenOms.Library.Keyed
import OpenOms.Library.Lists
import OpenOms.Secrets

/-!
Re-wrapping the stored credentials under a new master key, and every blob the
program seals with it: the broker and feed connections' credentials and the
strategies' follow credentials.
-/
namespace OmsRotate
open OmsSecrets Keyed

/-- A row of `broker_connection` or `feed_connection`. -/
structure ConnectionRow where
  code : String
  credentials : Option Bytes
  deriving DecidableEq

structure StrategyRow where
  code : String
  followCredentials : Option Bytes
  deriving DecidableEq

abbrev Connections := Table String ConnectionRow (·.code)

structure Database where
  brokerConnection : Connections
  feedConnection : Connections
  strategy : Table String StrategyRow (·.code)

inductive Place where
  | broker (code : String)
  | feed (code : String)
  | follow (code : String)
  deriving DecidableEq, Repr

def followAad (code : String) : String := "strategy:" ++ code ++ ":follow"

def Place.aad : Place → String
  | .broker code => code
  | .feed code => code
  | .follow code => followAad code

def blobIn (t : Connections) (code : String) : Option Bytes := (t.find code).bind (·.credentials)

def Database.stored (db : Database) : Place → Option Bytes
  | .broker code => blobIn db.brokerConnection code
  | .feed code => blobIn db.feedConnection code
  | .follow code => (db.strategy.find code).bind (·.followCredentials)

section
variable (aead : Aead) (nonces : String → Nonce) (old new : MasterKey)

/-- Open under `old` and re-seal under `new`, keeping `code` as the AAD. -/
def rewrap (code : String) (stored : Bytes) : Except SecretError Bytes := do
  let plain ← openSealed aead old code stored
  return sealWith aead new (nonces code) code plain

/-- Re-wrap a batch, refusing the whole batch if any row fails. -/
def rewrapRows : List (String × Bytes) → Except (String × SecretError) (List (String × Bytes))
  | [] => .ok []
  | (code, stored) :: rows =>
    match rewrap aead nonces old new code stored with
    | .error e => .error (code, e)
    | .ok out => (rewrapRows rows).map ((code, out) :: ·)

def refusal (table code : String) (e : SecretError) : String :=
  "refusing to rotate: " ++ table ++ " row '" ++ code ++
    "' will not open under the current master key (" ++ e.display ++ "). No rows were changed. " ++
    "Check that oms.master_key is the key these credentials were sealed with."

def selectSealed (t : Connections) : List (String × Bytes) :=
  t.rows.filterMap fun row => row.credentials.map (row.code, ·)

def setCredentials (t : Connections) (code : String) (blob : Bytes) : Connections :=
  t.update code (fun row => { row with credentials := some blob }) fun _ => rfl

def setAll (t : Connections) (rewrapped : List (String × Bytes)) : Connections :=
  rewrapped.foldl (fun t pair => setCredentials t pair.1 pair.2) t

def rotateTable (table : String) (t : Connections) : Except String (Connections × Nat) :=
  match rewrapRows aead nonces old new (selectSealed t) with
  | .error (code, e) => .error (refusal table code e)
  | .ok rewrapped => .ok (setAll t rewrapped, rewrapped.length)

/-- One transaction over both tables; an error anywhere rolls it back. -/
def rotate (db : Database) : Except String (Database × Nat) := do
  let (brokers, m) ← rotateTable aead nonces old new "oms.broker_connection" db.brokerConnection
  let (feeds, n) ← rotateTable aead nonces old new "oms.feed_connection" db.feedConnection
  return ({ db with brokerConnection := brokers, feedConnection := feeds }, m + n)

def afterRotate (db : Database) : Database :=
  match rotate aead nonces old new db with
  | .ok (rotated, _) => rotated
  | .error _ => db

def Rewrapped (db after : Database) : Prop :=
  ∀ place blob plain, db.stored place = some blob →
    openSealed aead old place.aad blob = .ok plain →
      ∃ blob', after.stored place = some blob' ∧ openSealed aead new place.aad blob' = .ok plain

/-- A rotation that succeeds re-wraps every blob; one that fails changes none. -/
def Complete (db : Database) : Prop :=
  match rotate aead nonces old new db with
  | .ok (after, _) => Rewrapped aead old new db after
  | .error _ => ∀ place, (afterRotate aead nonces old new db).stored place = db.stored place

def Unreadable (db : Database) : Prop :=
  ∃ t ∈ [db.brokerConnection, db.feedConnection], ∃ row ∈ t.rows, ∃ blob ∈ row.credentials,
    ∀ plain, openSealed aead old row.code blob ≠ .ok plain

/-- No strategy holds a follow credential that opens under the old key. -/
def NothingFollowed (db : Database) : Prop :=
  ∀ code blob plain, db.stored (.follow code) = some blob →
    openSealed aead old (followAad code) blob ≠ .ok plain

end

variable {aead : Aead} {nonces : String → Nonce} {old new : MasterKey}

theorem rewrap_ok {code : String} {stored out : Bytes} :
    rewrap aead nonces old new code stored = .ok out ↔
      ∃ plain, openSealed aead old code stored = .ok plain ∧
        out = sealWith aead new (nonces code) code plain := by
  unfold rewrap
  cases openSealed aead old code stored with
  | error e => simp [bind, Except.bind]
  | ok plain =>
    simp only [bind, Except.bind, pure, Except.pure, Except.ok.injEq, exists_eq_left']
    exact eq_comm

theorem rewrap_rows_ok {rows out : List (String × Bytes)}
    (done : rewrapRows aead nonces old new rows = .ok out) :
    List.Forall₂ (fun row made => made.1 = row.1 ∧
      rewrap aead nonces old new row.1 row.2 = .ok made.2) rows out := by
  induction rows generalizing out with
  | nil =>
    cases done
    exact .nil
  | cons row rows ih =>
    obtain ⟨code, stored⟩ := row
    simp only [rewrapRows] at done
    split at done
    · cases done
    · rename_i made rewrapped
      cases rest : rewrapRows aead nonces old new rows with
      | error e => simp [rest, Except.map] at done
      | ok later =>
        simp only [rest, Except.map, Except.ok.injEq] at done
        subst done
        exact .cons ⟨rfl, rewrapped⟩ (ih rest)

theorem rewrap_rows_codes {rows out : List (String × Bytes)}
    (done : rewrapRows aead nonces old new rows = .ok out) : out.map (·.1) = rows.map (·.1) := by
  have left := List.forall₂_map_left_iff.mpr (List.forall₂_map_right_iff.mpr
    ((rewrap_rows_ok done).imp fun _ _ both => both.1.symm))
  exact (List.forall₂_eq_eq_eq ▸ left).symm

theorem rewrap_rows_new (lawful : aead.Lawful) (different : old ≠ new)
    {rows out : List (String × Bytes)} (done : rewrapRows aead nonces old new rows = .ok out) :
    ∀ pair ∈ out, ∀ plain, openSealed aead old pair.1 pair.2 ≠ .ok plain := by
  intro pair member plain opens
  obtain ⟨i, made⟩ := List.mem_iff_getElem?.mp member
  obtain ⟨row, _, same, wrapped⟩ := Lists.paired_partner (rewrap_rows_ok done).flip made
  obtain ⟨plain', _, sealed⟩ := rewrap_ok.mp wrapped
  rw [sealed, same] at opens
  exact different (open_one_key lawful opens (open_seal lawful _ _ _ _))

theorem rewrap_rows_refused {rows : List (String × Bytes)} :
    (∃ out, rewrapRows aead nonces old new rows = .ok out) ↔
      ∀ row ∈ rows, ∃ plain, openSealed aead old row.1 row.2 = .ok plain := by
  induction rows with
  | nil => simp [rewrapRows]
  | cons row rows ih =>
    obtain ⟨code, stored⟩ := row
    rw [List.forall_mem_cons, ← ih]
    simp only [rewrapRows]
    cases opens : openSealed aead old code stored with
    | error e => simp [rewrap, opens, bind, Except.bind]
    | ok plain =>
      have made : rewrap aead nonces old new code stored =
          .ok (sealWith aead new (nonces code) code plain) := rewrap_ok.mpr ⟨plain, opens, rfl⟩
      rw [made]
      cases rewrapRows aead nonces old new rows with
      | error e => simp [Except.map]
      | ok later => simp [Except.map]

theorem mem_select {t : Connections} {code : String} {blob : Bytes} :
    (code, blob) ∈ selectSealed t ↔ blobIn t code = some blob := by
  simp only [selectSealed, List.mem_filterMap, Option.map_eq_some_iff, blobIn,
    Option.bind_eq_some_iff, Prod.mk.injEq]
  constructor
  · rintro ⟨row, member, _, stored, rfl, rfl⟩
    exact ⟨row, find_some.mpr ⟨member, rfl⟩, stored⟩
  · rintro ⟨row, found, stored⟩
    obtain ⟨member, rfl⟩ := find_some.mp found
    exact ⟨row, member, blob, stored, rfl, rfl⟩

theorem select_codes (t : Connections) : ((selectSealed t).map (·.1)).Nodup := by
  have inside : ((selectSealed t).map (·.1)).Sublist (t.rows.map (·.code)) := by
    unfold selectSealed
    generalize t.rows = rows
    induction rows with
    | nil => exact .slnil
    | cons row rows ih =>
      cases stored : row.credentials with
      | none => simpa [stored] using ih.cons row.code
      | some blob => simpa [stored] using ih
  exact inside.nodup t.distinct

theorem set_all_other {t : Connections} {pairs : List (String × Bytes)} {code : String}
    (others : ∀ pair ∈ pairs, pair.1 ≠ code) : (setAll t pairs).find code = t.find code := by
  induction pairs generalizing t with
  | nil => rfl
  | cons pair pairs ih =>
    obtain ⟨first, rest⟩ := List.forall_mem_cons.mp others
    have kept := ih (t := setCredentials t pair.1 pair.2) rest
    rw [setCredentials, find_update, if_neg (Ne.symm first)] at kept
    exact kept

theorem set_all_blob {t : Connections} {pairs : List (String × Bytes)} {code : String}
    {blob : Bytes} (distinct : (pairs.map (·.1)).Nodup) (member : (code, blob) ∈ pairs)
    (there : t.find code ≠ none) : blobIn (setAll t pairs) code = some blob := by
  induction pairs generalizing t with
  | nil => cases member
  | cons pair pairs ih =>
    obtain ⟨fresh, rest⟩ := List.nodup_cons.mp distinct
    rcases List.mem_cons.mp member with rfl | later
    · have others : ∀ pair ∈ pairs, pair.1 ≠ code := by
        intro pair among same
        exact fresh (List.mem_map.mpr ⟨pair, among, same⟩)
      have kept := set_all_other (t := setCredentials t code blob) others
      obtain ⟨row, found⟩ := Option.ne_none_iff_exists'.mp there
      rw [setCredentials, find_update, if_pos rfl, found] at kept
      show ((setAll (setCredentials t code blob) pairs).find code).bind _ = _
      rw [setCredentials, kept]
      rfl
    · refine ih (t := setCredentials t pair.1 pair.2) rest later ?_
      rw [setCredentials, find_update]
      split
      · rename_i same
        subst same
        simpa using there
      · exact there

theorem rotate_table_blob {table : String} {t t' : Connections} {n : Nat} {code : String}
    {blob : Bytes} (done : rotateTable aead nonces old new table t = .ok (t', n))
    (stored : blobIn t code = some blob) :
    ∃ plain, openSealed aead old code blob = .ok plain ∧
      blobIn t' code = some (sealWith aead new (nonces code) code plain) := by
  unfold rotateTable at done
  split at done
  · cases done
  · rename_i rewrapped batch
    cases done
    have pairs := rewrap_rows_ok batch
    obtain ⟨i, at_⟩ := List.mem_iff_getElem?.mp (mem_select.mpr stored)
    obtain ⟨⟨code', out⟩, made, same, rewrap_⟩ := Lists.paired_partner pairs at_
    obtain ⟨plain, opens, rfl⟩ := rewrap_ok.mp rewrap_
    cases same
    refine ⟨plain, opens, set_all_blob ?_ (List.mem_of_getElem? made) ?_⟩
    · rw [rewrap_rows_codes batch]
      exact select_codes t
    · intro missing
      simp [blobIn, missing] at stored

theorem rotate_table_refused {table : String} {t : Connections} :
    (∃ done, rotateTable aead nonces old new table t = .ok done) ↔
      ∀ row ∈ t.rows, ∀ blob ∈ row.credentials,
        ∃ plain, openSealed aead old row.code blob = .ok plain := by
  have batch := @rewrap_rows_refused aead nonces old new (selectSealed t)
  have rows : (∀ pair ∈ selectSealed t, ∃ plain, openSealed aead old pair.1 pair.2 = .ok plain) ↔
      ∀ row ∈ t.rows, ∀ blob ∈ row.credentials,
        ∃ plain, openSealed aead old row.code blob = .ok plain := by
    simp only [selectSealed, List.mem_filterMap, Option.map_eq_some_iff]
    constructor
    · intro all row member blob stored
      exact all (row.code, blob) ⟨row, member, blob, stored, rfl⟩
    · rintro all _ ⟨row, member, blob, stored, rfl⟩
      exact all row member blob stored
  rw [← rows, ← batch]
  unfold rotateTable
  cases rewrapRows aead nonces old new (selectSealed t) with
  | error e => simp
  | ok rewrapped => simp

/-- Rotation goes through exactly when every connection's credential opens. -/
theorem rotate_refused {db : Database} :
    (∃ done, rotate aead nonces old new db = .ok done) ↔ ¬ Unreadable aead old db := by
  have tables : ¬ Unreadable aead old db ↔
      (∃ done, rotateTable aead nonces old new "oms.broker_connection" db.brokerConnection =
        .ok done) ∧
      ∃ done, rotateTable aead nonces old new "oms.feed_connection" db.feedConnection =
        .ok done := by
    rw [rotate_table_refused, rotate_table_refused]
    simp [Unreadable]
  rw [tables]
  unfold rotate
  cases rotateTable aead nonces old new "oms.broker_connection" db.brokerConnection with
  | error e => simp [bind, Except.bind]
  | ok brokers =>
    cases rotateTable aead nonces old new "oms.feed_connection" db.feedConnection with
    | error e => simp [bind, Except.bind]
    | ok feeds => simp [bind, Except.bind, pure, Except.pure]

theorem rotate_tables {db after : Database} {n : Nat}
    (done : rotate aead nonces old new db = .ok (after, n)) :
    after.strategy = db.strategy ∧
      (∃ m, rotateTable aead nonces old new "oms.broker_connection" db.brokerConnection =
        .ok (after.brokerConnection, m)) ∧
      ∃ m, rotateTable aead nonces old new "oms.feed_connection" db.feedConnection =
        .ok (after.feedConnection, m) := by
  unfold rotate at done
  cases brokers : rotateTable aead nonces old new "oms.broker_connection" db.brokerConnection with
  | error e => simp [brokers, bind, Except.bind] at done
  | ok rotated =>
    cases feeds : rotateTable aead nonces old new "oms.feed_connection" db.feedConnection with
    | error e => simp [brokers, feeds, bind, Except.bind] at done
    | ok fed =>
      simp only [brokers, feeds, bind, Except.bind, pure, Except.pure, Except.ok.injEq,
        Prod.mk.injEq] at done
      obtain ⟨rfl, _⟩ := done
      exact ⟨rfl, ⟨_, rfl⟩, ⟨_, rfl⟩⟩

theorem followed_not_rewrapped (lawful : aead.Lawful) (different : old ≠ new) {db after : Database}
    {n : Nat} (done : rotate aead nonces old new db = .ok (after, n)) {code : String}
    {blob plain : Bytes} (stored : db.stored (.follow code) = some blob)
    (opens : openSealed aead old (followAad code) blob = .ok plain) :
    ¬ Rewrapped aead old new db after := by
  intro rewrapped
  obtain ⟨blob', kept, opens'⟩ := rewrapped _ blob plain stored opens
  have same : after.stored (.follow code) = db.stored (.follow code) := by
    simp [Database.stored, (rotate_tables done).1]
  cases stored.symm.trans (same.symm.trans kept)
  exact different (open_one_key lawful opens opens')

theorem connections_rewrapped (lawful : aead.Lawful) {db after : Database} {n : Nat}
    (done : rotate aead nonces old new db = .ok (after, n))
    (followed : old = new ∨ NothingFollowed aead old db) : Rewrapped aead old new db after := by
  obtain ⟨strategies, ⟨m, brokers⟩, ⟨k, feeds⟩⟩ := rotate_tables done
  intro place blob plain stored opens
  cases place with
  | broker code =>
    obtain ⟨plain', opens', made⟩ := rotate_table_blob brokers stored
    cases opens.symm.trans opens'
    exact ⟨_, made, open_seal lawful _ _ _ _⟩
  | feed code =>
    obtain ⟨plain', opens', made⟩ := rotate_table_blob feeds stored
    cases opens.symm.trans opens'
    exact ⟨_, made, open_seal lawful _ _ _ _⟩
  | follow code =>
    rcases followed with rfl | nothing
    · exact ⟨blob, by simpa [Database.stored, strategies] using stored, opens⟩
    · exact absurd opens (nothing code blob plain stored)

/-- Rotation is complete exactly when it is refused, changes no key, or no strategy
    holds a follow credential under the old one. -/
theorem rotation_complete_iff (lawful : aead.Lawful) (nonces : String → Nonce)
    (old new : MasterKey) (db : Database) :
    Complete aead nonces old new db ↔
      Unreadable aead old db ∨ old = new ∨ NothingFollowed aead old db := by
  unfold Complete
  cases result : rotate aead nonces old new db with
  | error e =>
    have unreadable : Unreadable aead old db := by
      by_contra readable
      obtain ⟨done, goes⟩ := rotate_refused.mpr readable
      cases result.symm.trans goes
    have kept : afterRotate aead nonces old new db = db := by simp [afterRotate, result]
    simp [kept, unreadable]
  | ok done =>
    obtain ⟨after, n⟩ := done
    have readable : ¬ Unreadable aead old db := rotate_refused.mp ⟨_, result⟩
    simp only [readable, false_or]
    constructor
    · intro rewrapped
      by_contra neither
      simp only [not_or, NothingFollowed, not_forall, not_not] at neither
      obtain ⟨different, code, blob, plain, stored, opens⟩ := neither
      exact followed_not_rewrapped lawful different result stored opens rewrapped
    · exact connections_rewrapped lawful result

def announced : List UInt8 → Bytes
  | [] => [0]
  | byte :: bytes => 1 :: byte :: announced bytes

/-- A cipher that keeps to the laws and hides nothing: key, data and text in a row. -/
def openCipher : Aead where
  encrypt key _ aad plain := key.bytes ++ announced aad.toByteArray.data.toList ++ plain
  decrypt key _ aad cipher :=
    let mark := key.bytes ++ announced aad.toByteArray.data.toList
    if mark.isPrefixOf cipher then some (cipher.drop mark.length) else none

theorem announced_inj {a b : List UInt8} {x y : Bytes}
    (same : announced a ++ x = announced b ++ y) : a = b := by
  induction a generalizing b with
  | nil =>
    cases b with
    | nil => rfl
    | cons byte bytes => simp [announced] at same
  | cons byte bytes ih =>
    cases b with
    | nil => simp [announced] at same
    | cons byte' bytes' =>
      simp only [announced, List.cons_append, List.cons.injEq, true_and] at same
      rw [same.1, ih same.2]

theorem open_cipher_lawful : openCipher.Lawful := by
  refine ⟨?_, ?_, ?_, ?_⟩
  · intro key nonce aad plain
    simp [openCipher, List.isPrefixOf_iff_prefix]
  · intro key nonce aad cipher plain opens
    simp only [openCipher] at opens ⊢
    split at opens
    · rename_i begins
      obtain ⟨rest, rfl⟩ := List.isPrefixOf_iff_prefix.mp begins
      simpa using opens
    · cases opens
  · intro key key' nonce aad aad' plain plain' same
    simp only [openCipher, List.append_assoc] at same
    obtain ⟨keys, rest⟩ := List.append_inj same (key.size.trans key'.size.symm)
    refine ⟨?_, ?_⟩
    · cases key
      cases key'
      cases keys
      rfl
    · have bytes := announced_inj rest
      exact String.toByteArray_inj.mp (ByteArray.ext (Array.toList_inj.mp bytes))
  · intro key nonce aad plain
    simp only [openCipher, List.length_append, key.size, tagLen]
    omega

def masterKey (byte : UInt8) : MasterKey where
  bytes := List.replicate 32 byte
  size := List.length_replicate

def zeroNonce (_ : String) : Nonce where
  bytes := List.replicate nonceLen 0
  size := List.length_replicate

/-- One strategy follows its venue account, under the old key. -/
def following : Database where
  brokerConnection := .empty
  feedConnection := .empty
  strategy := {
    rows := [⟨"mm", some (sealWith openCipher (masterKey 0) (zeroNonce "") (followAad "mm") [7])⟩]
    distinct := by simp }

theorem follow_credential_left_behind :
    openCipher.Lawful ∧ ¬ Complete openCipher zeroNonce (masterKey 0) (masterKey 1) following := by
  refine ⟨open_cipher_lawful, ?_⟩
  have different : masterKey 0 ≠ masterKey 1 := by decide
  have done : rotate openCipher zeroNonce (masterKey 0) (masterKey 1) following =
      .ok (following, 0) := rfl
  have stored : following.stored (.follow "mm") =
      some (sealWith openCipher (masterKey 0) (zeroNonce "") (followAad "mm") [7]) := by
    simp [Database.stored, Table.find, following]
  unfold Complete
  rw [done]
  exact followed_not_rewrapped open_cipher_lawful different done stored
    (open_seal open_cipher_lawful _ _ _ _)

theorem following_rotation :
    Complete openCipher zeroNonce (masterKey 0) (masterKey 1) following ↔
      Unreadable openCipher (masterKey 0) following ∨ masterKey 0 = masterKey 1 ∨
        NothingFollowed openCipher (masterKey 0) following :=
  rotation_complete_iff open_cipher_lawful zeroNonce (masterKey 0) (masterKey 1) following

end OmsRotate
