import Mathlib.Data.List.Basic

/-!
The sender of an outbox. It reads a batch of entries with the records each of them
becomes, sends record by record, and removes the entries whose records were all
acknowledged. It may be cut off anywhere; a removal already on its way then still
lands later, or never.
-/
namespace Outbox
variable {I R : Type}

inductive Stage (I R : Type) where
  | idle
  | sending (left : List (I × List R)) (acked : List I)
  | removing (acked : List I)
  deriving DecidableEq, Repr

/-- `late` are the removals cut off after they were sent. -/
structure Bridge (I R : Type) where
  stage : Stage I R
  late : List (List I)
  deriving DecidableEq, Repr

def Bridge.start : Bridge I R := ⟨.idle, []⟩

inductive Move where
  | send
  -- a send that is not acknowledged; the record may have arrived
  | fail (arrived : Bool)
  | settle
  | finish
  | remove
  | crash (arrived : Bool)
  | land (n : Nat)
  deriving DecidableEq, Repr

/-- The bridge after a move, the records that arrived, those acknowledged, and the
    entries removed. -/
structure Effect (I R : Type) where
  bridge : Bridge I R
  arrived : List (I × R)
  acked : List (I × R)
  removed : List I
  deriving DecidableEq, Repr

def silent (bridge : Bridge I R) : Effect I R := ⟨bridge, [], [], []⟩

def Bridge.fetch (b : Bridge I R) (batch : List (I × List R)) : Option (Bridge I R) :=
  match b.stage with
  | .idle => some { b with stage := .sending batch [] }
  | .sending _ _ | .removing _ => none

def Stage.underway : Stage I R → List (I × R)
  | .sending ((id, record :: _) :: _) _ => [(id, record)]
  | _ => []

def Bridge.move (b : Bridge I R) : Move → Option (Effect I R)
  | .send =>
    match b.stage with
    | .sending ((id, record :: records) :: left) acked =>
      let stage := .sending ((id, records) :: left) acked
      some ⟨{ b with stage }, [(id, record)], [(id, record)], []⟩
    | _ => none
  | .fail arrived =>
    match b.stage with
    | .sending ((id, record :: _) :: _) acked =>
      some { silent { b with stage := .removing acked } with
        arrived := if arrived then [(id, record)] else [] }
    | _ => none
  | .settle =>
    match b.stage with
    | .sending ((id, []) :: left) acked =>
      some (silent { b with stage := .sending left (acked ++ [id]) })
    | _ => none
  | .finish =>
    match b.stage with
    | .sending [] acked => some (silent { b with stage := .removing acked })
    | _ => none
  | .remove =>
    match b.stage with
    | .removing acked => some { silent { b with stage := .idle } with removed := acked }
    | _ => none
  | .crash arrived =>
    match b.stage with
    | .removing acked => some (silent ⟨.idle, b.late ++ [acked]⟩)
    | stage =>
      some { silent { b with stage := .idle } with
        arrived := if arrived then stage.underway else [] }
  | .land n =>
    match b.late[n]? with
    | some ids => some { silent { b with late := b.late.eraseIdx n } with removed := ids }
    | none => none

inductive Moved (b : Bridge I R) : Effect I R → Prop where
  | sent {id : I} {record : R} {records : List R} {left : List (I × List R)} {acked : List I}
      (at_ : b.stage = .sending ((id, record :: records) :: left) acked) :
      Moved b ⟨{ b with stage := .sending ((id, records) :: left) acked }, [(id, record)],
        [(id, record)], []⟩
  | failed {id : I} {record : R} {records : List R} {left : List (I × List R)} {acked : List I}
      {arrived : List (I × R)} (at_ : b.stage = .sending ((id, record :: records) :: left) acked)
      (maybe : arrived ⊆ [(id, record)]) :
      Moved b { silent { b with stage := .removing acked } with arrived }
  | settled {id : I} {left : List (I × List R)} {acked : List I}
      (at_ : b.stage = .sending ((id, []) :: left) acked) :
      Moved b (silent { b with stage := .sending left (acked ++ [id]) })
  | finished {acked : List I} (at_ : b.stage = .sending [] acked) :
      Moved b (silent { b with stage := .removing acked })
  | removed {acked : List I} (at_ : b.stage = .removing acked) :
      Moved b { silent { b with stage := .idle } with removed := acked }
  | stopped {arrived : List (I × R)} (maybe : arrived ⊆ b.stage.underway) :
      Moved b { silent { b with stage := .idle } with arrived }
  | cutOff {acked : List I} (at_ : b.stage = .removing acked) :
      Moved b (silent ⟨.idle, b.late ++ [acked]⟩)
  | landed {n : Nat} {ids : List I} (at_ : b.late[n]? = some ids) :
      Moved b { silent { b with late := b.late.eraseIdx n } with removed := ids }

theorem move_moved {b : Bridge I R} {m : Move} {e : Effect I R} (moves : b.move m = some e) :
    Moved b e := by
  have some_of : ∀ (arrived : Bool) (records : List (I × R)),
      (if arrived then records else []) ⊆ records := by
    intro arrived records
    cases arrived <;> simp
  cases m with
  | send =>
    simp only [Bridge.move] at moves
    split at moves
    · cases moves
      exact .sent ‹_›
    · cases moves
  | fail arrived =>
    simp only [Bridge.move] at moves
    split at moves
    · cases moves
      exact .failed ‹_› (some_of arrived _)
    · cases moves
  | settle =>
    simp only [Bridge.move] at moves
    split at moves
    · cases moves
      exact .settled ‹_›
    · cases moves
  | finish =>
    simp only [Bridge.move] at moves
    split at moves
    · cases moves
      exact .finished ‹_›
    · cases moves
  | remove =>
    simp only [Bridge.move] at moves
    split at moves
    · cases moves
      exact .removed ‹_›
    · cases moves
  | crash arrived =>
    simp only [Bridge.move] at moves
    split at moves
    · cases moves
      exact .cutOff ‹_›
    · cases moves
      exact .stopped (some_of arrived _)
  | land n =>
    simp only [Bridge.move] at moves
    split at moves
    · cases moves
      exact .landed ‹_›
    · cases moves

def Stage.left : Stage I R → List (I × List R)
  | .sending left _ => left
  | .idle | .removing _ => []

def Stage.acked : Stage I R → List I
  | .sending _ acked | .removing acked => acked
  | .idle => []

def Bridge.settled (b : Bridge I R) : List I := b.stage.acked ++ b.late.flatten

/-- Every record built for the entry has been acknowledged; `Built` tells what may
    be built for one. -/
def AllAcked (Built : I → List R → Prop) (acks : List (I × R)) (id : I) : Prop :=
  ∃ records, Built id records ∧ ∀ record ∈ records, (id, record) ∈ acks

/-- Of an entry being sent only the records left are missing, of one about to be
    removed none. -/
structure Sound (Built : I → List R → Prop) (acks : List (I × R)) (b : Bridge I R) : Prop where
  sending : ∀ item ∈ b.stage.left, ∃ sent, Built item.1 (sent ++ item.2) ∧
    ∀ record ∈ sent, (item.1, record) ∈ acks
  settled : ∀ id ∈ b.settled, AllAcked Built acks id

variable {Built : I → List R → Prop} {acks : List (I × R)} {b : Bridge I R}

theorem all_acked_mono {Built' : I → List R → Prop} {acks' : List (I × R)} {id : I}
    (built : ∀ records, Built id records → Built' id records) (more : acks ⊆ acks')
    (all : AllAcked Built acks id) : AllAcked Built' acks' id := by
  obtain ⟨records, made, sent⟩ := all
  exact ⟨records, built records made, fun record member => more (sent record member)⟩

theorem sound_mono {Built' : I → List R → Prop} {acks' : List (I × R)}
    (built : ∀ id records, Built id records → Built' id records) (more : acks ⊆ acks')
    (sound : Sound Built acks b) : Sound Built' acks' b := by
  constructor
  · intro item member
    obtain ⟨sent, made, there⟩ := sound.sending item member
    exact ⟨sent, built _ _ made, fun record old => more (there record old)⟩
  · exact fun id member => all_acked_mono (built id) more (sound.settled id member)

theorem start_sound : Sound Built acks (.start : Bridge I R) := by
  constructor <;> simp [Bridge.start, Bridge.settled, Stage.left, Stage.acked]

theorem moved_settled {e : Effect I R} (moved : Moved b e) :
    (∀ id ∈ e.removed, id ∈ b.settled) ∧
      ∀ id ∈ e.bridge.settled, id ∈ b.settled ∨ (id, []) ∈ b.stage.left := by
  cases moved with
  | sent at_ | failed at_ | finished at_ =>
    refine ⟨by simp [silent], fun id member => Or.inl ?_⟩
    simpa [Bridge.settled, at_, Stage.acked, silent] using member
  | settled at_ =>
    refine ⟨by simp [silent], fun id member => ?_⟩
    simp only [silent, Bridge.settled, Stage.acked, at_, Stage.left, List.mem_append,
      List.mem_cons] at member ⊢
    rcases member with (acked | rfl | none_) | late
    · exact Or.inl (Or.inl acked)
    · exact Or.inr (Or.inl rfl)
    · cases none_
    · exact Or.inl (Or.inr late)
  | removed at_ =>
    constructor
    · intro id member
      simp [Bridge.settled, at_, Stage.acked, show id ∈ _ from member]
    · intro id member
      simp only [silent, Bridge.settled, Stage.acked, List.nil_append] at member
      exact Or.inl (List.mem_append_right _ member)
  | stopped maybe =>
    refine ⟨by simp [silent], fun id member => Or.inl ?_⟩
    simp only [silent, Bridge.settled, Stage.acked, List.nil_append] at member
    exact List.mem_append_right _ member
  | cutOff at_ =>
    refine ⟨by simp [silent], fun id member => Or.inl ?_⟩
    simpa [Bridge.settled, at_, Stage.acked, silent, or_comm] using member
  | landed at_ =>
    have among := List.mem_of_getElem? at_
    constructor
    · intro id member
      exact List.mem_append_right _ (List.mem_flatten.mpr ⟨_, among, member⟩)
    · intro id member
      refine Or.inl ?_
      simp only [silent, Bridge.settled, List.mem_append, List.mem_flatten] at member ⊢
      refine member.imp_right ?_
      rintro ⟨ids, left, inside⟩
      exact ⟨ids, List.mem_of_mem_eraseIdx left, inside⟩

theorem moved_sending {e : Effect I R} (moved : Moved b e) :
    ∀ item ∈ e.bridge.stage.left, ∃ sent, (item.1, sent ++ item.2) ∈ b.stage.left ∧
      ∀ record ∈ sent, (item.1, record) ∈ e.acked := by
  have same : ∀ item ∈ b.stage.left, ∃ sent, (item.1, sent ++ item.2) ∈ b.stage.left ∧
      ∀ record ∈ sent, (item.1, record) ∈ e.acked :=
    fun item member => ⟨[], member, by simp⟩
  cases moved with
  | @sent id record records left acked at_ =>
    intro item member
    rcases List.mem_cons.mp member with rfl | old
    · exact ⟨[record], by simp [at_, Stage.left], by simp⟩
    · exact same item (by simpa [at_, Stage.left] using Or.inr old)
  | settled at_ =>
    intro item member
    rw [at_] at same ⊢
    exact same item (List.mem_cons_of_mem _ member)
  | landed at_ => exact same
  | failed at_ | finished at_ | removed at_ | stopped | cutOff at_ =>
    intro item member
    cases member

theorem move_sound {e : Effect I R} (sound : Sound Built acks b) (moved : Moved b e) :
    Sound Built (acks ++ e.acked) e.bridge := by
  have more : acks ⊆ acks ++ e.acked := List.subset_append_left _ _
  constructor
  · intro item member
    obtain ⟨now, before, acked⟩ := moved_sending moved item member
    obtain ⟨sent, built, there⟩ := sound.sending _ before
    refine ⟨sent ++ now, by simpa using built, fun record of => ?_⟩
    rcases List.mem_append.mp of with old | new
    · exact more (there record old)
    · exact List.mem_append_right _ (acked record new)
  · intro id member
    rcases (moved_settled moved).2 id member with old | done
    · exact all_acked_mono (fun _ made => made) more (sound.settled id old)
    · obtain ⟨sent, built, there⟩ := sound.sending _ done
      exact ⟨sent, by simpa using built, fun record of => more (there record of)⟩

theorem removed_acked {e : Effect I R} (sound : Sound Built acks b) (moved : Moved b e) :
    ∀ id ∈ e.removed, AllAcked Built acks id :=
  fun id member => sound.settled id ((moved_settled moved).1 id member)

theorem fetch_sound {t : Bridge I R} {batch : List (I × List R)} (sound : Sound Built acks b)
    (built : ∀ item ∈ batch, Built item.1 item.2) (fetches : b.fetch batch = some t) :
    Sound Built acks t := by
  unfold Bridge.fetch at fetches
  split at fetches
  · cases fetches
    constructor
    · exact fun item member => ⟨[], built item member, by simp⟩
    · intro id member
      exact sound.settled id (List.mem_append_right _ (by simpa [Bridge.settled, Stage.acked]
        using member))
  · cases fetches
  · cases fetches

end Outbox
