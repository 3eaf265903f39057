import OpenOms.Library.Broadcast
import OpenOms.Marks
import Std.Data.ExtTreeSet

/-!
Live updates: one socket's pump between the two lanes of the event bus and the
notices its client is sent, and what each step does to them.
-/
namespace OmsLiveUpdates
open OmsMarks Broadcast

def ORDER_LANE_CAPACITY : Nat := 1024

def PRICE_LANE_CAPACITY : Nat := 4096

/-- How many notices wait for the socket before the pump has to. -/
def OUT_CAPACITY : Nat := 64

inductive OrderLaneEvent where
  | appended (orderId : String) (globalPosition : Int) (eventType : String)
  | positionChanged (portfolioId instrumentId : String)
  deriving DecidableEq, Repr

inductive UiNotice where
  | orders
  | positions
  | marks (instrumentIds : List Int)
  | resync
  | heartbeat
  deriving DecidableEq, Repr

structure Conflator where
  orders : Bool
  positions : Bool
  resync : Bool
  marks : Std.ExtTreeSet Int

def Conflator.default : Conflator := ⟨false, false, false, ∅⟩

def Conflator.onOrder (c : Conflator) : Except RecvError OrderLaneEvent → Conflator
  | .ok (.appended _ _ _) => { c with orders := true }
  | .ok (.positionChanged _ _) => { c with positions := true }
  | .error (.lagged _) => { c with resync := true }
  | .error .closed => c

def Conflator.onMark (c : Conflator) (m : MarkUpdate) : Conflator :=
  { c with marks := c.marks.insert m.instrumentId }

def Conflator.takeFast (c : Conflator) : List UiNotice × Conflator :=
  let notices :=
    if c.resync then [.resync]
    else [(c.orders, .orders), (c.positions, .positions)].filterMap fun (pending, n) =>
      if pending then some n else none
  (notices, { c with orders := false, positions := false, resync := false })

def Conflator.takeMarks (c : Conflator) : Option UiNotice × Conflator :=
  if c.marks.isEmpty then (none, c) else (some (.marks c.marks.toList), { c with marks := ∅ })

/-- The lanes as this socket's receivers have them, the pump with the notices of its
    last turn still to be sent, and those waiting for the socket. -/
structure Live where
  closed : Bool
  order : Receiver OrderLaneEvent
  price : Receiver MarkUpdate
  orderOpen : Bool
  priceOpen : Bool
  conflator : Conflator
  notices : List UiNotice
  out : List UiNotice

def Live.connected : Live where
  closed := false
  order := .subscribe
  price := .subscribe
  orderOpen := true
  priceOpen := true
  conflator := .default
  notices := []
  out := []

/-- The bus publishes, after storing what it announces, or is gone; the pump turns to
    one of its branches or sends; the socket sends a notice to the client. -/
inductive Action where
  | publishOrder (ev : OrderLaneEvent)
  | publishMark (m : MarkUpdate)
  | close
  | recvOrder
  | recvPrice
  | fastTick
  | slowTick
  | heartbeat
  | send
  | deliver
  deriving DecidableEq, Repr

def Live.turn (s : Live) : Action → Option Live
  | .recvOrder =>
    if s.orderOpen then
      match s.order.recv ORDER_LANE_CAPACITY s.closed with
      | none => none
      | some (r, order) =>
        some { s with
          order
          orderOpen := decide (r ≠ .error .closed)
          conflator := s.conflator.onOrder r }
    else none
  | .recvPrice =>
    if s.priceOpen then
      match s.price.recv PRICE_LANE_CAPACITY s.closed with
      | none => none
      | some (.ok m, price) => some { s with price, conflator := s.conflator.onMark m }
      -- marks conflate anyway: skipping ahead loses nothing
      | some (.error (.lagged _), price) => some { s with price }
      | some (.error .closed, price) => some { s with price, priceOpen := false }
    else none
  | .fastTick => some { s with notices := s.conflator.takeFast.1, conflator := s.conflator.takeFast.2 }
  | .slowTick =>
    some { s with
      notices := s.conflator.takeMarks.1.toList
      conflator := s.conflator.takeMarks.2 }
  | .heartbeat => some { s with notices := [.heartbeat] }
  | _ => none

def step (s : Live) : Action → Option Live
  | .publishOrder ev => if s.closed then none else some { s with order := s.order.send ev }
  | .publishMark m => if s.closed then none else some { s with price := s.price.send m }
  | .close => some { s with closed := true }
  | .send =>
    match s.notices with
    | n :: notices =>
      if s.out.length < OUT_CAPACITY then some { s with notices, out := s.out ++ [n] } else none
    | [] => none
  | .deliver =>
    match s.out with
    | _ :: out => some { s with out }
    | [] => none
  | branch => if s.notices = [] then s.turn branch else none

def UiNotice.Tells (n : UiNotice) (instrumentId : Int) : Prop :=
  match n with
  | .marks ids => instrumentId ∈ ids
  | .resync => True
  | _ => False

def Conflator.onPrice (c : Conflator) : Except RecvError MarkUpdate → Conflator
  | .ok m => c.onMark m
  | .error _ => c

def Steps (s t : Live) : Action → Prop
  | .publishOrder ev => t = { s with order := s.order.send ev }
  | .publishMark m => s.closed = false ∧ t = { s with price := s.price.send m }
  | .close => t = { s with closed := true }
  | .recvOrder => s.notices = [] ∧
      ∃ r order, s.order.recv ORDER_LANE_CAPACITY s.closed = some (r, order) ∧
        t = { s with
          order
          orderOpen := decide (r ≠ .error .closed)
          conflator := s.conflator.onOrder r }
  | .recvPrice => s.notices = [] ∧ s.priceOpen = true ∧
      ∃ r price, s.price.recv PRICE_LANE_CAPACITY s.closed = some (r, price) ∧
        t = { s with
          price
          priceOpen := decide (r ≠ .error .closed)
          conflator := s.conflator.onPrice r }
  | .fastTick => s.notices = [] ∧
      t = { s with notices := s.conflator.takeFast.1, conflator := s.conflator.takeFast.2 }
  | .slowTick => s.notices = [] ∧
      t = { s with
        notices := s.conflator.takeMarks.1.toList
        conflator := s.conflator.takeMarks.2 }
  | .heartbeat => s.notices = [] ∧ t = { s with notices := [.heartbeat] }
  | .send => s.out.length < OUT_CAPACITY ∧ ∃ n notices, s.notices = n :: notices ∧
      t = { s with notices, out := s.out ++ [n] }
  | .deliver => ∃ n out, s.out = n :: out ∧ t = { s with out }

theorem step_steps {s t : Live} {a : Action} (next : step s a = some t) : Steps s t a := by
  cases a with
  | publishOrder ev =>
    simp only [step] at next
    split at next
    · cases next
    · cases next
      rfl
  | publishMark m =>
    simp only [step] at next
    split at next
    · cases next
    · rename_i opened
      cases next
      exact ⟨by simpa using opened, rfl⟩
  | close =>
    cases next
    rfl
  | recvOrder =>
    simp only [step, Live.turn] at next
    split at next
    · rename_i idle
      split at next
      · split at next
        · cases next
        · rename_i r order received
          cases next
          exact ⟨idle, r, order, received, rfl⟩
      · cases next
    · cases next
  | recvPrice =>
    simp only [step, Live.turn] at next
    split at next
    · rename_i idle
      split at next
      · rename_i opened
        refine ⟨idle, opened, ?_⟩
        split at next
        · cases next
        · rename_i m price received
          cases next
          exact ⟨_, _, received, by rw [opened]; rfl⟩
        · rename_i missed price received
          cases next
          exact ⟨_, _, received, by rw [opened]; rfl⟩
        · rename_i price received
          cases next
          exact ⟨_, _, received, rfl⟩
      · cases next
    · cases next
  | fastTick =>
    simp only [step, Live.turn] at next
    split at next
    · rename_i idle
      cases next
      exact ⟨idle, rfl⟩
    · cases next
  | slowTick =>
    simp only [step, Live.turn] at next
    split at next
    · rename_i idle
      cases next
      exact ⟨idle, rfl⟩
    · cases next
  | heartbeat =>
    simp only [step, Live.turn] at next
    split at next
    · rename_i idle
      cases next
      exact ⟨idle, rfl⟩
    · cases next
  | send =>
    simp only [step] at next
    split at next
    · rename_i n notices waiting
      split at next
      · rename_i room
        cases next
        exact ⟨room, n, notices, waiting, rfl⟩
      · cases next
    · cases next
  | deliver =>
    simp only [step] at next
    split at next
    · rename_i n out waiting
      cases next
      exact ⟨n, out, waiting, rfl⟩
    · cases next

theorem queues_move {s t : Live} {a : Action} (next : step s a = some t) :
    (t.notices = s.notices ∧ t.out = s.out ∧ a ≠ .send ∧ a ≠ .deliver) ∨
    (s.notices = [] ∧ t.out = s.out ∧ ((a = .fastTick ∧ t.notices = s.conflator.takeFast.1) ∨
      (a = .slowTick ∧ t.notices = s.conflator.takeMarks.1.toList) ∨
      (a = .heartbeat ∧ t.notices = [.heartbeat]))) ∨
    (a = .send ∧ s.out.length < OUT_CAPACITY ∧ ∃ n, s.notices = n :: t.notices ∧
      t.out = s.out ++ [n]) ∨
    (a = .deliver ∧ t.notices = s.notices ∧ ∃ n, s.out = n :: t.out) := by
  have effect := step_steps next
  cases a with
  | publishOrder ev =>
    have same : t = _ := effect
    rw [same]
    exact Or.inl ⟨rfl, rfl, by simp, by simp⟩
  | publishMark m =>
    obtain ⟨-, rfl⟩ := effect
    exact Or.inl ⟨rfl, rfl, by simp, by simp⟩
  | close =>
    have same : t = _ := effect
    rw [same]
    exact Or.inl ⟨rfl, rfl, by simp, by simp⟩
  | recvOrder =>
    obtain ⟨-, r, order, -, rfl⟩ := effect
    exact Or.inl ⟨rfl, rfl, by simp, by simp⟩
  | recvPrice =>
    obtain ⟨-, -, r, price, -, rfl⟩ := effect
    exact Or.inl ⟨rfl, rfl, by simp, by simp⟩
  | fastTick =>
    obtain ⟨idle, rfl⟩ := effect
    exact Or.inr (Or.inl ⟨idle, rfl, Or.inl ⟨rfl, rfl⟩⟩)
  | slowTick =>
    obtain ⟨idle, rfl⟩ := effect
    exact Or.inr (Or.inl ⟨idle, rfl, Or.inr (Or.inl ⟨rfl, rfl⟩)⟩)
  | heartbeat =>
    obtain ⟨idle, rfl⟩ := effect
    exact Or.inr (Or.inl ⟨idle, rfl, Or.inr (Or.inr ⟨rfl, rfl⟩)⟩)
  | send =>
    obtain ⟨room, n, notices, waiting, rfl⟩ := effect
    exact Or.inr (Or.inr (Or.inl ⟨rfl, room, n, waiting, rfl⟩))
  | deliver =>
    obtain ⟨n, out, waiting, rfl⟩ := effect
    exact Or.inr (Or.inr (Or.inr ⟨rfl, rfl, n, waiting⟩))

theorem price_moves {s t : Live} {a : Action} (next : step s a = some t) :
    (t.price = s.price ∧ t.priceOpen = s.priceOpen ∧ a ≠ .recvPrice ∧
      (s.closed = true → t.closed = true)) ∨
    (∃ m, a = .publishMark m ∧ s.closed = false ∧ t.price = s.price.send m ∧
      t.priceOpen = s.priceOpen) ∨
    (a = .recvPrice ∧ t.closed = s.closed ∧
      ∃ r, s.price.recv PRICE_LANE_CAPACITY s.closed = some (r, t.price) ∧
        t.priceOpen = decide (r ≠ .error .closed)) := by
  have effect := step_steps next
  cases a with
  | publishMark m =>
    obtain ⟨live, rfl⟩ := effect
    exact Or.inr (Or.inl ⟨m, rfl, live, rfl, rfl⟩)
  | recvPrice =>
    obtain ⟨-, -, r, price, received, rfl⟩ := effect
    exact Or.inr (Or.inr ⟨rfl, rfl, r, received, rfl⟩)
  | publishOrder ev =>
    have same : t = _ := effect
    rw [same]
    exact Or.inl ⟨rfl, rfl, by simp, fun gone => gone⟩
  | close =>
    have same : t = _ := effect
    rw [same]
    exact Or.inl ⟨rfl, rfl, by simp, fun _ => rfl⟩
  | recvOrder =>
    obtain ⟨-, r, order, -, rfl⟩ := effect
    exact Or.inl ⟨rfl, rfl, by simp, fun gone => gone⟩
  | fastTick =>
    obtain ⟨-, rfl⟩ := effect
    exact Or.inl ⟨rfl, rfl, by simp, fun gone => gone⟩
  | slowTick =>
    obtain ⟨-, rfl⟩ := effect
    exact Or.inl ⟨rfl, rfl, by simp, fun gone => gone⟩
  | heartbeat =>
    obtain ⟨-, rfl⟩ := effect
    exact Or.inl ⟨rfl, rfl, by simp, fun gone => gone⟩
  | send =>
    obtain ⟨-, n, notices, -, rfl⟩ := effect
    exact Or.inl ⟨rfl, rfl, by simp, fun gone => gone⟩
  | deliver =>
    obtain ⟨n, out, -, rfl⟩ := effect
    exact Or.inl ⟨rfl, rfl, by simp, fun gone => gone⟩

theorem conflator_moves {s t : Live} {a : Action} (next : step s a = some t) :
    t.conflator = s.conflator ∨
    (a = .recvOrder ∧ ∃ r order, s.order.recv ORDER_LANE_CAPACITY s.closed = some (r, order) ∧
      t.conflator = s.conflator.onOrder r) ∨
    (a = .recvPrice ∧ ∃ r price, s.price.recv PRICE_LANE_CAPACITY s.closed = some (r, price) ∧
      t.conflator = s.conflator.onPrice r) ∨
    (a = .fastTick ∧ t.conflator = s.conflator.takeFast.2) ∨
    (a = .slowTick ∧ t.conflator = s.conflator.takeMarks.2) := by
  have effect := step_steps next
  cases a with
  | recvOrder =>
    obtain ⟨-, r, order, received, rfl⟩ := effect
    exact Or.inr (Or.inl ⟨rfl, r, order, received, rfl⟩)
  | recvPrice =>
    obtain ⟨-, -, r, price, received, rfl⟩ := effect
    exact Or.inr (Or.inr (Or.inl ⟨rfl, r, price, received, rfl⟩))
  | fastTick =>
    obtain ⟨-, rfl⟩ := effect
    exact Or.inr (Or.inr (Or.inr (Or.inl ⟨rfl, rfl⟩)))
  | slowTick =>
    obtain ⟨-, rfl⟩ := effect
    exact Or.inr (Or.inr (Or.inr (Or.inr ⟨rfl, rfl⟩)))
  | heartbeat =>
    obtain ⟨-, rfl⟩ := effect
    exact Or.inl rfl
  | send =>
    obtain ⟨-, n, notices, -, rfl⟩ := effect
    exact Or.inl rfl
  | deliver =>
    obtain ⟨n, out, -, rfl⟩ := effect
    exact Or.inl rfl
  | publishMark m =>
    obtain ⟨-, rfl⟩ := effect
    exact Or.inl rfl
  | publishOrder ev =>
    have same : t = _ := effect
    rw [same]
    exact Or.inl rfl
  | close =>
    have same : t = _ := effect
    rw [same]
    exact Or.inl rfl

theorem mem_on_order {c : Conflator} {r : Except RecvError OrderLaneEvent} {i : Int} :
    i ∈ (c.onOrder r).marks ↔ i ∈ c.marks := by
  rcases r with (_ | _) | ⟨_ | _⟩ <;> exact Iff.rfl

theorem mem_on_price {c : Conflator} {r : Except RecvError MarkUpdate} {i : Int} :
    i ∈ (c.onPrice r).marks ↔ i ∈ c.marks ∨ ∃ m, r = .ok m ∧ m.instrumentId = i := by
  cases r with
  | error e => simp [Conflator.onPrice]
  | ok m =>
    rw [Conflator.onPrice, Conflator.onMark, Std.ExtTreeSet.mem_insert]
    simp [or_comm]

theorem on_order_resync {c : Conflator} {r : Except RecvError OrderLaneEvent} :
    (c.onOrder r).resync = true ↔ c.resync = true ∨ ∃ missed, r = .error (.lagged missed) := by
  rcases r with (_ | _) | ⟨_ | _⟩ <;> simp [Conflator.onOrder]

theorem on_price_resync (c : Conflator) (r : Except RecvError MarkUpdate) :
    (c.onPrice r).resync = c.resync := by
  cases r <;> rfl

theorem take_marks_mem (c : Conflator) (i : Int) :
    i ∈ c.marks ↔ ∃ n ∈ c.takeMarks.1, n.Tells i := by
  unfold Conflator.takeMarks
  split
  · rename_i none_
    have empty := Std.ExtTreeSet.isEmpty_iff.mp none_
    simp [empty]
  · simp [UiNotice.Tells]

theorem take_marks_rest (c : Conflator) :
    (∀ i, i ∉ c.takeMarks.2.marks) ∧ c.takeMarks.2.resync = c.resync := by
  unfold Conflator.takeMarks
  split
  · rename_i none_
    have empty := Std.ExtTreeSet.isEmpty_iff.mp none_
    simp [empty]
  · simp

theorem take_fast_tells (c : Conflator) (i : Int) :
    (∃ n ∈ c.takeFast.1, n.Tells i) ↔ c.resync = true := by
  unfold Conflator.takeFast
  cases c.resync with
  | true => simp [UiNotice.Tells]
  | false => cases c.orders <;> cases c.positions <;> simp [UiNotice.Tells]

theorem marks_stay {s t : Live} {a : Action} (next : step s a = some t) (other : a ≠ .slowTick)
    {i : Int} (pending : i ∈ s.conflator.marks) : i ∈ t.conflator.marks := by
  rcases conflator_moves next with same | ⟨-, r, order, -, same⟩ | ⟨-, r, price, -, same⟩ |
    ⟨-, same⟩ | ⟨flush, -⟩
  · rw [same]
    exact pending
  · rw [same]
    exact mem_on_order.mpr pending
  · rw [same]
    exact mem_on_price.mpr (Or.inl pending)
  · rw [same]
    exact pending
  · exact absurd flush other

theorem resync_stays {s t : Live} {a : Action} (next : step s a = some t) (other : a ≠ .fastTick)
    (pending : s.conflator.resync = true) : t.conflator.resync = true := by
  rcases conflator_moves next with same | ⟨-, r, order, -, same⟩ | ⟨-, r, price, -, same⟩ |
    ⟨flush, -⟩ | ⟨-, same⟩
  · rw [same]
    exact pending
  · rw [same]
    exact on_order_resync.mpr (Or.inl pending)
  · rw [same, on_price_resync]
    exact pending
  · exact absurd flush other
  · rw [same, (take_marks_rest _).2]
    exact pending

structure Sound (s : Live) : Prop where
  room : s.out.length ≤ OUT_CAPACITY
  reading : s.price.next ≤ s.price.log.length
  opened : s.priceOpen = false → s.closed = true ∧ ¬ s.price.Behind

theorem connected_sound : Sound .connected := by
  constructor
  · exact Nat.zero_le _
  · exact Nat.le_refl _
  · intro shut
    cases shut

theorem step_sound {s t : Live} {a : Action} (sound : Sound s) (next : step s a = some t) :
    Sound t := by
  constructor
  · have room := sound.room
    rcases queues_move next with ⟨-, same, -, -⟩ | ⟨-, same, -⟩ | ⟨-, space, n, -, same⟩ |
      ⟨-, -, n, same⟩
    · rw [same]
      exact room
    · rw [same]
      exact room
    · rw [same, List.length_append]
      exact space
    · rw [same] at room
      exact Nat.le_of_succ_le room
  · have reading := sound.reading
    rcases price_moves next with ⟨same, -⟩ | ⟨m, -, -, same, -⟩ | ⟨-, -, r, received, -⟩
    · rw [same]
      exact reading
    · rw [same, Receiver.send, List.length_append]
      exact Nat.le_succ_of_le reading
    · rcases recv_cases received with ⟨-, -, same⟩ | ⟨-, ⟨m, at_, -⟩, same⟩ | ⟨-, -, -, same⟩
      · rw [same]
        exact Nat.sub_le _ _
      · rw [same]
        exact (List.getElem?_eq_some_iff.mp at_).1
      · rw [same]
        exact reading
  · intro shut
    rcases price_moves next with ⟨same, open_, -, stays⟩ | ⟨m, -, live, -, open_⟩ |
      ⟨-, closed, r, received, open_⟩
    · rw [open_] at shut
      obtain ⟨gone, drained⟩ := sound.opened shut
      rw [same]
      exact ⟨stays gone, drained⟩
    · rw [open_] at shut
      rw [(sound.opened shut).1] at live
      cases live
    · rw [open_] at shut
      have ended : r = .error .closed := by simpa using shut
      rcases recv_cases received with ⟨-, got, -⟩ | ⟨-, ⟨m, -, got⟩, -⟩ | ⟨drained, gone, -, same⟩
      · rw [got] at ended
        cases ended
      · rw [got] at ended
        cases ended
      · rw [closed, same]
        exact ⟨gone, drained⟩

theorem out_grows {s t : Live} {a : Action} (next : step s a = some t) (other : a ≠ .deliver) :
    ∃ more, t.out = s.out ++ more := by
  rcases queues_move next with ⟨-, same, -, -⟩ | ⟨-, same, -⟩ | ⟨-, -, n, -, same⟩ | ⟨is, -, -⟩
  · exact ⟨[], by rw [same, List.append_nil]⟩
  · exact ⟨[], by rw [same, List.append_nil]⟩
  · exact ⟨[n], same⟩
  · exact absurd is other

theorem notices_stay {s t : Live} {a : Action} (next : step s a = some t) (other : a ≠ .send)
    (waiting : s.notices ≠ []) : t.notices = s.notices := by
  rcases queues_move next with ⟨same, -, -, -⟩ | ⟨idle, -, -⟩ | ⟨is, -, -⟩ | ⟨-, same, -⟩
  · exact same
  · exact absurd idle waiting
  · exact absurd is other
  · exact same

theorem can_deliver {s : Live} (waiting : s.out ≠ []) : (step s .deliver).isSome = true := by
  cases out : s.out with
  | nil => exact absurd out waiting
  | cons n rest => simp [step, out]

theorem can_send {s : Live} (waiting : s.notices ≠ []) (room : s.out.length < OUT_CAPACITY) :
    (step s .send).isSome = true := by
  cases notices : s.notices with
  | nil => exact absurd notices waiting
  | cons n rest => simp [step, notices, room]

theorem delivered {s t : Live} (next : step s .deliver = some t) : ∃ n, s.out = n :: t.out := by
  obtain ⟨n, out, waiting, rfl⟩ := step_steps next
  exact ⟨n, waiting⟩

theorem sent {s t : Live} (next : step s .send = some t) :
    ∃ n, s.notices = n :: t.notices ∧ t.out = s.out ++ [n] := by
  obtain ⟨-, n, notices, waiting, rfl⟩ := step_steps next
  exact ⟨n, waiting, rfl⟩

end OmsLiveUpdates
