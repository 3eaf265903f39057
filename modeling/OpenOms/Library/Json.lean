import OpenOms.Library.Lists
import Mathlib.Data.Option.Basic
import Mathlib.Data.Rat.Defs

/-!
Values as JSON and back. A codec reads what it wrote also after a store has put the
members of the objects in another order.
-/
namespace Json
open Lists

inductive Value where
  | null
  | bool (b : Bool)
  | num (q : ℚ)
  | str (s : String)
  | arr (items : List Value)
  | obj (members : List (String × Value))
  deriving Repr

inductive Alike : Value → Value → Prop where
  | same (j : Value) : Alike j j
  | arr {items items' : List Value} (each : List.Forall₂ Alike items items') :
      Alike (.arr items) (.arr items')
  | obj {members members' : List (String × Value)}
      (each : ∀ name, Option.Rel Alike (members.lookup name) (members'.lookup name)) :
      Alike (.obj members) (.obj members')

variable {α β : Type}

structure Codec (α : Type) where
  write : α → Value
  read : Value → Option α
  read_alike : ∀ {a j}, Alike (write a) j → read j = some a

theorem rel_alike_refl (j : Option Value) : Option.Rel Alike j j := by
  cases j with
  | none => exact .none
  | some j => exact .some (.same j)

theorem Codec.read_write (c : Codec α) (a : α) : c.read (c.write a) = some a :=
  c.read_alike (.same _)

def Codec.text : Codec String where
  write := .str
  read
    | .str s => some s
    | _ => none
  read_alike alike := by cases alike; rfl

def Codec.number : Codec ℚ where
  write := .num
  read
    | .num q => some q
    | _ => none
  read_alike alike := by cases alike; rfl

def Codec.count : Codec Nat where
  write n := .num n
  read
    | .num q => if q.den = 1 ∧ 0 ≤ q.num then some q.num.toNat else none
    | _ => none
  read_alike alike := by
    cases alike
    simp

def Codec.named [DecidableEq α] (values : List α) (name : α → String)
    (complete : ∀ a, a ∈ values) (apart : (values.map name).Nodup) : Codec α where
  write a := .str (name a)
  read
    | .str s => values.find? (name · = s)
    | _ => none
  read_alike {a} _ alike := by
    cases alike
    exact find_own apart (complete a)

/-- What is read off an object by its members' names, whatever else it has, where no
    two of the names are one. -/
structure Fields (α : Type) where
  names : List String
  put : α → List (String × Value)
  take : (String → Option Value) → Option α
  put_names : ∀ a, (put a).map Prod.fst = names
  take_alike : ∀ {a get}, names.Nodup →
    (∀ name ∈ names, Option.Rel Alike ((put a).lookup name) (get name)) → take get = some a

def Fields.one (name : String) (c : Codec α) : Fields α where
  names := [name]
  put a := [(name, c.write a)]
  take get := (get name).bind c.read
  put_names _ := rfl
  take_alike {a get} _ each := by
    have own := each name (List.mem_singleton_self name)
    rw [List.lookup_cons_self] at own
    cases shown : get name with
    | none =>
      rw [shown] at own
      cases own
    | some j =>
      rw [shown] at own
      cases own with
      | some alike => exact c.read_alike alike

def Fields.optional (name : String) (c : Codec α) (valued : ∀ a, c.write a ≠ .null) :
    Fields (Option α) where
  names := [name]
  put a := [(name, a.elim .null c.write)]
  take get :=
    match get name with
    | none | some .null => some none
    | some j => (c.read j).map some
  put_names _ := rfl
  take_alike {a get} _ each := by
    have own := each name (List.mem_singleton_self name)
    rw [List.lookup_cons_self] at own
    cases shown : get name with
    | none =>
      rw [shown] at own
      cases own
    | some j =>
      rw [shown] at own
      cases own with
      | some alike =>
        cases a with
        | none =>
          cases alike
          rfl
        | some a =>
          have some_ := c.read_alike alike
          cases j with
          | null =>
            cases written : c.write a with
            | null => exact absurd written (valued a)
            | _ =>
              rw [Option.elim, written] at alike
              cases alike
          | _ => simp only [some_, Option.map_some]

theorem lookup_none {members : List (String × Value)} {name : String}
    (absent : name ∉ members.map Prod.fst) : members.lookup name = none := by
  rw [List.lookup_eq_none_iff]
  intro member there
  simp only [ne_eq, bne_iff_ne]
  rintro rfl
  exact absent (List.mem_map.mpr ⟨member, there, rfl⟩)

theorem lookup_left {members others : List (String × Value)} {name : String}
    (there : name ∈ members.map Prod.fst) :
    (members ++ others).lookup name = members.lookup name := by
  rw [List.lookup_append]
  cases found : members.lookup name with
  | some j => rfl
  | none =>
    obtain ⟨member, inside, rfl⟩ := List.mem_map.mp there
    have other := List.lookup_eq_none_iff.mp found member inside
    simp at other

theorem lookup_right {members others : List (String × Value)} {name : String}
    (absent : name ∉ members.map Prod.fst) :
    (members ++ others).lookup name = others.lookup name := by
  rw [List.lookup_append, lookup_none absent, Option.none_or]

theorem lookup_mem {members : List (String × Value)} (apart : (members.map Prod.fst).Nodup)
    {name : String} {j : Value} : members.lookup name = some j ↔ (name, j) ∈ members := by
  induction members with
  | nil => simp
  | cons member members ih =>
    obtain ⟨own, is⟩ := member
    obtain ⟨absent, apart⟩ := List.nodup_cons.mp apart
    by_cases same : name = own
    · subst same
      rw [List.lookup_cons_self, List.mem_cons]
      constructor
      · intro found
        cases found
        exact Or.inl rfl
      · rintro (found | there)
        · cases found
          rfl
        · exact absurd (List.mem_map.mpr ⟨_, there, rfl⟩) absent
    · rw [List.lookup_cons, beq_false_of_ne same, List.mem_cons]
      simp [same, ih apart]

theorem perm_alike {members members' : List (String × Value)} (perm : members.Perm members')
    (apart : (members.map Prod.fst).Nodup) : Alike (.obj members) (.obj members') := by
  refine .obj fun name => ?_
  have same : members.lookup name = members'.lookup name := by
    refine Option.ext fun j => ?_
    rw [lookup_mem apart, lookup_mem ((perm.map Prod.fst).nodup_iff.mp apart), perm.mem_iff]
  rw [same]
  exact rel_alike_refl _

def Fields.and (f : Fields α) (g : Fields β) : Fields (α × β) where
  names := f.names ++ g.names
  put p := f.put p.1 ++ g.put p.2
  take get := (f.take get).bind fun a => (g.take get).map fun b => (a, b)
  put_names p := by rw [List.map_append, f.put_names, g.put_names]
  take_alike {p get} nodup each := by
    obtain ⟨mine, others, apart⟩ := List.nodup_append.mp nodup
    have left : f.take get = some p.1 := by
      refine f.take_alike mine fun name there => ?_
      rw [← @lookup_left _ (g.put p.2) _ (by rw [f.put_names]; exact there)]
      exact each name (List.mem_append_left _ there)
    have right : g.take get = some p.2 := by
      refine g.take_alike others fun name there => ?_
      have absent : name ∉ (f.put p.1).map Prod.fst := by
        rw [f.put_names]
        exact fun too => apart name too name there rfl
      rw [← lookup_right absent]
      exact each name (List.mem_append_right _ there)
    rw [left, right]
    rfl

def Fields.via (f : Fields β) (parts : α → β) (make : β → α) (whole : ∀ a, make (parts a) = a) :
    Fields α where
  names := f.names
  put a := f.put (parts a)
  take get := (f.take get).map make
  put_names a := f.put_names (parts a)
  take_alike nodup each := by rw [f.take_alike nodup each, Option.map_some, whole]

def members : Value → Option (List (String × Value))
  | .obj ms => some ms
  | _ => none

theorem alike_members {ms : List (String × Value)} {j : Value} (alike : Alike (.obj ms) j) :
    ∃ ms', j = .obj ms' ∧ ∀ name, Option.Rel Alike (ms.lookup name) (ms'.lookup name) := by
  cases alike with
  | same => exact ⟨ms, rfl, fun _ => rel_alike_refl _⟩
  | obj each => exact ⟨_, rfl, each⟩

def Codec.object (f : Fields α) (nodup : f.names.Nodup) : Codec α where
  write a := .obj (f.put a)
  read j := (members j).bind fun ms => f.take (ms.lookup ·)
  read_alike alike := by
    obtain ⟨ms, rfl, each⟩ := alike_members alike
    exact f.take_alike nodup fun name _ => each name

structure Variant (α : Type) where
  tag : String
  {Args : Type}
  fields : Fields Args
  make : Args → α

/-- A union whose cases are told apart by the member under the key. -/
structure Tagged (α : Type) where
  key : String
  variants : List (Variant α)
  split : α → Σ v : Variant α, v.Args
  among : ∀ a, (split a).1 ∈ variants
  whole : ∀ a, (split a).1.make (split a).2 = a
  tags : (variants.map Variant.tag).Nodup
  nodup : ∀ v ∈ variants, (key :: v.fields.names).Nodup

def Tagged.put (u : Tagged α) (a : α) : List (String × Value) :=
  (u.key, .str (u.split a).1.tag) :: (u.split a).1.fields.put (u.split a).2

def Tagged.take (u : Tagged α) (get : String → Option Value) : Option α :=
  (get u.key).bind fun j =>
    (Codec.text.read j).bind fun tag =>
      (u.variants.find? (·.tag = tag)).bind fun v => (v.fields.take get).map v.make

theorem Tagged.take_alike (u : Tagged α) {a : α} {get : String → Option Value}
    (each : ∀ name, Option.Rel Alike ((u.put a).lookup name) (get name)) :
    u.take get = some a := by
  have tagged := each u.key
  rw [Tagged.put, List.lookup_cons_self] at tagged
  cases shown : get u.key with
  | none =>
    rw [shown] at tagged
    cases tagged
  | some j =>
    rw [shown] at tagged
    cases tagged with
    | some alike =>
      have taken : (u.split a).1.fields.take get = some (u.split a).2 := by
        obtain ⟨apart, nodup⟩ := List.nodup_cons.mp (u.nodup _ (u.among a))
        refine (u.split a).1.fields.take_alike nodup fun name there => ?_
        have other : name ≠ u.key := by
          rintro rfl
          exact apart there
        have own := each name
        rw [Tagged.put, List.lookup_cons, beq_false_of_ne other] at own
        exact own
      unfold Tagged.take
      rw [shown, Option.bind_some, @Codec.read_alike _ Codec.text (u.split a).1.tag _ alike,
        Option.bind_some, find_own u.tags (u.among a), Option.bind_some, taken, Option.map_some, u.whole]

def Codec.tagged (u : Tagged α) : Codec α where
  write a := .obj (u.put a)
  read j := (members j).bind fun ms => u.take (ms.lookup ·)
  read_alike alike := by
    obtain ⟨ms, rfl, each⟩ := alike_members alike
    exact u.take_alike each

end Json
