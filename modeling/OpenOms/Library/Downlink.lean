/-!
A line down to one party, up or not. What is pushed while it is up queues behind a first
message that is sent later; what is pushed while it is down is lost; what the far end has
taken off a link outlives it.
-/
namespace Downlink
variable {M W : Type}

structure Link (M : Type) where
  stateSent : Bool
  queue : List M
  deriving DecidableEq, Repr

def push (link : Option (Link M)) (msg : M) : Option (Link M) :=
  link.map fun link => { link with queue := link.queue ++ [msg] }

variable (word : M → Option W)

def last (before : W) (msgs : List M) : W := msgs.foldl (fun w msg => (word msg).getD w) before

/-- What the far end is left with once it has taken all on its way. Nothing before a link's
    first message counts, and `nothing` stands where no link is up. -/
def told (nothing now : W) (link : Option (Link M)) (received : List M) : W :=
  match link with
  | none => nothing
  | some ⟨true, queue⟩ => last word now (received ++ queue)
  | some ⟨false, queue⟩ => last word nothing queue

variable {word} {nothing now : W}

@[simp] theorem last_nil (before : W) : last word before [] = before := rfl

@[simp] theorem last_cons (before : W) (msg : M) (msgs : List M) :
    last word before (msg :: msgs) = last word ((word msg).getD before) msgs := rfl

@[simp] theorem last_append (before : W) (first second : List M) :
    last word before (first ++ second) = last word (last word before first) second := by
  simp [last]

/-- Messages that say nothing leave the word as it was; otherwise what stood before them is
    forgotten. -/
theorem last_cases (msgs : List M) :
    ((∀ msg ∈ msgs, word msg = none) ∧ ∀ before, last word before msgs = before) ∨
      (¬ (∀ msg ∈ msgs, word msg = none) ∧
        ∀ before other, last word before msgs = last word other msgs) := by
  induction msgs with
  | nil => exact Or.inl (by simp)
  | cons msg rest ih =>
    cases said : word msg with
    | some told =>
      refine Or.inr ⟨?_, by simp [said]⟩
      intro silent
      exact absurd (silent msg (by simp)) (by simp [said])
    | none =>
      rcases ih with ⟨silent, same⟩ | ⟨spoken, forgotten⟩
      · exact Or.inl (by simpa [said, same] using silent)
      · refine Or.inr ⟨?_, by simpa [said] using forgotten⟩
        exact fun silent => spoken fun other member => silent other (by simp [member])

theorem told_push (link : Option (Link M)) (received : List M) (msg : M) :
    told word nothing now (push link msg) received =
      if link.isSome then (word msg).getD (told word nothing now link received) else nothing := by
  cases link with
  | none => rfl
  | some link =>
    obtain ⟨sent, queue⟩ := link
    cases sent <;> simp [push, told]

theorem told_first {queue : List M} {first : M} (said : (word first).isSome = true)
    (received : List M) :
    (∀ msg ∈ queue, word msg = none) ∧
        some (told word nothing now (some ⟨true, first :: queue⟩) received) = word first ∨
      ¬ (∀ msg ∈ queue, word msg = none) ∧
        told word nothing now (some ⟨true, first :: queue⟩) received =
          told word nothing now (some ⟨false, queue⟩) received := by
  obtain ⟨w, is⟩ := Option.isSome_iff_exists.mp said
  rcases @last_cases M W word queue with ⟨silent, same⟩ | ⟨spoken, forgotten⟩
  · exact Or.inl ⟨silent, by simp [told, is, same]⟩
  · exact Or.inr ⟨spoken, by simpa [told] using forgotten _ _⟩

theorem told_received (msg : M) (queue received : List M) :
    told word nothing now (some ⟨true, queue⟩) (received ++ [msg]) =
      told word nothing now (some ⟨true, msg :: queue⟩) received := by
  simp [told]

theorem told_applied (link : Option (Link M)) (msg : M) (received : List M) :
    told word nothing ((word msg).getD now) link received =
      told word nothing now link (msg :: received) := by
  cases link with
  | none => rfl
  | some link =>
    obtain ⟨sent, queue⟩ := link
    cases sent <;> simp [told]

end Downlink
