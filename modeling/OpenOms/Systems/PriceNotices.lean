import OpenOms.Library.Behaviors
import OpenOms.LiveUpdates

/-!
The bus, a pump and its socket over endless runs: which published marks the client
is told of while the connection stays up.
-/
namespace OmsPriceNotices
open OmsMarks OmsLiveUpdates Broadcast Behaviors Runs

/-- The connection stays up: of the pump's branches, its sends and the socket's, what
    can be done again and again is. -/
def Up (b : Behavior step) : Prop :=
  Fair b .recvOrder ∧ Fair b .recvPrice ∧ Fair b .fastTick ∧ Fair b .slowTick ∧
    Fair b .send ∧ Fair b .deliver

def Told (b : Behavior step) (n : Nat) (instrumentId : Int) : Prop :=
  ∃ m, n ≤ m ∧ b.act m = .deliver ∧ ∃ notice ∈ (b.state m).out.head?, notice.Tells instrumentId

def OnItsWay (s : Live) (instrumentId : Int) : Prop :=
  instrumentId ∈ s.conflator.marks ∨ s.conflator.resync = true ∨
    (∃ n ∈ s.notices, n.Tells instrumentId) ∨ ∃ n ∈ s.out, n.Tells instrumentId

/-- The pump reads a mark of the instrument, or finds that it missed order events. -/
def Brings (s : Live) (a : Action) (instrumentId : Int) : Prop :=
  match a with
  | .recvPrice => s.price.oldest PRICE_LANE_CAPACITY ≤ s.price.next ∧
      ∃ m, s.price.log[s.price.next]? = some m ∧ m.instrumentId = instrumentId
  | .recvOrder => s.order.next < s.order.oldest ORDER_LANE_CAPACITY
  | _ => False

/-- The pump goes past the mark in place `k` of the price lane without reading it. -/
def Skipped (b : Behavior step) (k : Nat) : Prop :=
  ∃ m, b.act m = .recvPrice ∧ (b.state m).price.next ≤ k ∧
    k < (b.state m).price.oldest PRICE_LANE_CAPACITY

def NoneLost (b : Behavior step) : Prop :=
  ∀ n m, b.act n = .publishMark m → Told b n m.instrumentId

/-- A mark the pump skips is told of all the same: when it is published its instrument
    is on its way, or later a mark of it is read, or a lag on the order lane found. -/
def SkipsCovered (b : Behavior step) : Prop :=
  ∀ n m, b.act n = .publishMark m → Skipped b (b.state n).price.log.length →
    OnItsWay (b.state n) m.instrumentId ∨
      ∃ later, n ≤ later ∧ Brings (b.state later) (b.act later) m.instrumentId

theorem way_from {s t : Live} {a : Action} {i : Int} (next : step s a = some t)
    (way : OnItsWay t i) : OnItsWay s i ∨ Brings s a i := by
  rcases way with pending | resync | ⟨n, waiting, tells⟩ | ⟨n, queued, tells⟩
  · rcases conflator_moves next with same | ⟨-, r, order, -, same⟩ |
      ⟨rfl, r, price, received, same⟩ | ⟨-, same⟩ | ⟨-, same⟩
    · rw [same] at pending
      exact Or.inl (Or.inl pending)
    · rw [same] at pending
      exact Or.inl (Or.inl (mem_on_order.mp pending))
    · rw [same] at pending
      rcases mem_on_price.mp pending with old | ⟨m, rfl, named⟩
      · exact Or.inl (Or.inl old)
      · rcases recv_cases received with ⟨-, got, -⟩ | ⟨kept, ⟨m', at_, got⟩, -⟩ | ⟨-, -, got, -⟩
        · cases got
        · cases got
          exact Or.inr ⟨kept, m, at_, named⟩
        · cases got
    · rw [same] at pending
      exact Or.inl (Or.inl pending)
    · rw [same] at pending
      exact absurd pending ((take_marks_rest _).1 i)
  · rcases conflator_moves next with same | ⟨rfl, r, order, received, same⟩ | ⟨-, r, price, -, same⟩ |
      ⟨-, same⟩ | ⟨-, same⟩
    · rw [same] at resync
      exact Or.inl (Or.inr (Or.inl resync))
    · rw [same] at resync
      rcases on_order_resync.mp resync with old | ⟨missed, rfl⟩
      · exact Or.inl (Or.inr (Or.inl old))
      · rcases recv_cases received with ⟨lags, -, -⟩ | ⟨-, ⟨ev, -, got⟩, -⟩ | ⟨-, -, got, -⟩
        · exact Or.inr lags
        · cases got
        · cases got
    · rw [same, on_price_resync] at resync
      exact Or.inl (Or.inr (Or.inl resync))
    · rw [same] at resync
      cases resync
    · rw [same, (take_marks_rest _).2] at resync
      exact Or.inl (Or.inr (Or.inl resync))
  · rcases queues_move next with ⟨same, -, -, -⟩ | ⟨-, -, flush⟩ | ⟨-, -, first, popped, -⟩ | ⟨-, same, -⟩
    · rw [same] at waiting
      exact Or.inl (Or.inr (Or.inr (Or.inl ⟨n, waiting, tells⟩)))
    · rcases flush with ⟨-, made⟩ | ⟨-, made⟩ | ⟨-, made⟩
      · rw [made] at waiting
        exact Or.inl (Or.inr (Or.inl ((take_fast_tells _ i).mp ⟨n, waiting, tells⟩)))
      · rw [made] at waiting
        exact Or.inl (Or.inl ((take_marks_mem _ i).mpr ⟨n, Option.mem_toList.mp waiting, tells⟩))
      · rw [made, List.mem_singleton] at waiting
        rw [waiting] at tells
        exact absurd tells id
    · refine Or.inl (Or.inr (Or.inr (Or.inl ⟨n, ?_, tells⟩)))
      rw [popped]
      exact List.mem_cons_of_mem first waiting
    · rw [same] at waiting
      exact Or.inl (Or.inr (Or.inr (Or.inl ⟨n, waiting, tells⟩)))
  · rcases queues_move next with ⟨-, same, -, -⟩ | ⟨-, same, -⟩ | ⟨-, -, first, popped, grown⟩ |
      ⟨-, -, first, popped⟩
    · rw [same] at queued
      exact Or.inl (Or.inr (Or.inr (Or.inr ⟨n, queued, tells⟩)))
    · rw [same] at queued
      exact Or.inl (Or.inr (Or.inr (Or.inr ⟨n, queued, tells⟩)))
    · rw [grown] at queued
      rcases List.mem_append.mp queued with old | new
      · exact Or.inl (Or.inr (Or.inr (Or.inr ⟨n, old, tells⟩)))
      · refine Or.inl (Or.inr (Or.inr (Or.inl ⟨n, ?_, tells⟩)))
        rw [popped, List.mem_singleton.mp new]
        exact List.mem_cons_self
    · refine Or.inl (Or.inr (Or.inr (Or.inr ⟨n, ?_, tells⟩)))
      rw [popped]
      exact List.mem_cons_of_mem first queued

theorem brings_way {s t : Live} {a : Action} {i : Int} (next : step s a = some t)
    (brings : Brings s a i) : OnItsWay t i := by
  cases a with
  | recvPrice =>
    obtain ⟨kept, m, at_, named⟩ := brings
    obtain ⟨-, -, r, price, received, rfl⟩ := step_steps next
    rcases recv_cases received with ⟨lags, -, -⟩ | ⟨-, ⟨m', atToo, rfl⟩, -⟩ | ⟨drained, -, -, -⟩
    · exact absurd lags (Nat.not_lt.mpr kept)
    · rw [at_] at atToo
      cases atToo
      exact Or.inl (mem_on_price.mpr (Or.inr ⟨m, rfl, named⟩))
    · exact absurd (List.getElem?_eq_some_iff.mp at_).1 drained
  | recvOrder =>
    have lags : s.order.next < s.order.oldest ORDER_LANE_CAPACITY := brings
    obtain ⟨-, r, order, received, rfl⟩ := step_steps next
    rcases recv_cases received with ⟨-, rfl, -⟩ | ⟨kept, -, -⟩ | ⟨drained, -, -, -⟩
    · exact Or.inr (Or.inl (on_order_resync.mpr (Or.inr ⟨_, rfl⟩)))
    · exact absurd lags (Nat.not_lt.mpr kept)
    · exact absurd (Nat.lt_of_lt_of_le lags (Nat.sub_le _ _)) drained
  | _ => exact absurd brings id

theorem recv_price_moves {s t : Live} (next : step s .recvPrice = some t) (behind : s.price.Behind) :
    t.price.log = s.price.log ∧
      ((s.price.next < s.price.oldest PRICE_LANE_CAPACITY ∧
        t.price.next = s.price.oldest PRICE_LANE_CAPACITY) ∨
      (s.price.oldest PRICE_LANE_CAPACITY ≤ s.price.next ∧ t.price.next = s.price.next + 1)) := by
  obtain ⟨-, -, r, price, received, rfl⟩ := step_steps next
  exact ⟨recv_log received, recv_next received behind⟩

theorem lane_waits {s t : Live} {a : Action} (next : step s a = some t) (other : a ≠ .recvPrice)
    {k left : Nat} {m : MarkUpdate}
    (waits : s.price.log[k]? = some m ∧ s.price.next + left = k) :
    t.price.log[k]? = some m ∧ t.price.next + left = k := by
  obtain ⟨there, place⟩ := waits
  rcases price_moves next with ⟨same, -⟩ | ⟨m', -, -, same, -⟩ | ⟨is, -⟩
  · rw [same]
    exact ⟨there, place⟩
  · rw [same, Receiver.send]
    refine ⟨?_, place⟩
    rw [List.getElem?_append_left (List.getElem?_eq_some_iff.mp there).1]
    exact there
  · exact absurd is other

section
variable {b : Behavior step}

theorem told_later {n m : Nat} {i : Int} (later : n ≤ m) (told : Told b m i) : Told b n i := by
  obtain ⟨k, after, rest⟩ := told
  exact ⟨k, Nat.le_trans later after, rest⟩

theorem state_sound (starts : b.state 0 = .connected) (n : Nat) : Sound (b.state n) := by
  refine always_from b (fun s a t sound next => step_sound sound next) (Nat.zero_le n) ?_
  rw [starts]
  exact connected_sound

theorem told_from {n : Nat} {i : Int} (told : Told b n i) :
    OnItsWay (b.state n) i ∨ ∃ m, n ≤ m ∧ Brings (b.state m) (b.act m) i := by
  by_cases way : OnItsWay (b.state n) i
  · exact Or.inl way
  · have kept : ∀ s a t, ¬ OnItsWay s i → ¬ Brings s a i → step s a = some t → ¬ OnItsWay t i := by
      intro s a t off quiet next on
      cases way_from next on with
      | inl was => exact off was
      | inr brings => exact quiet brings
    cases stays_or_ends b (P := fun s => ¬ OnItsWay s i) kept way with
    | inl never =>
      obtain ⟨m, later, -, notice, head, tells⟩ := told
      have queued : notice ∈ (b.state m).out := List.mem_of_mem_head? head
      exact absurd (Or.inr (Or.inr (Or.inr ⟨notice, queued, tells⟩))) (never m later).1
    | inr ends =>
      obtain ⟨m, later, -, brings⟩ := ends
      exact Or.inr ⟨m, later, brings⟩

variable (up : Up b)
include up

theorem out_delivered (before : List UiNotice) (notice : UiNotice) (n : Nat)
    (queued : ∃ after, (b.state n).out = before ++ notice :: after) :
    ∃ m, n ≤ m ∧ b.act m = .deliver ∧ (b.state m).out.head? = some notice := by
  have taken : ∀ (before : List UiNotice) (n : Nat),
      (∃ after, (b.state n).out = before ++ notice :: after) →
      ∃ m, n ≤ m ∧ (∃ after, (b.state m).out = before ++ notice :: after) ∧
        b.act m = .deliver := by
    intro before n queued
    refine fair_taken (P := fun s => ∃ after, s.out = before ++ notice :: after) b
      up.2.2.2.2.2 ?_ ?_ queued
    · intro s c t waits other next
      obtain ⟨after, isOut⟩ := waits
      obtain ⟨more, grown⟩ := out_grows next other
      exact ⟨after ++ more, by rw [grown, isOut, List.append_assoc, List.cons_append]⟩
    · intro n all
      obtain ⟨after, isOut⟩ := all n (Nat.le_refl n)
      exact ⟨n, Nat.le_refl n, can_deliver (by rw [isOut]; simp)⟩
  induction before generalizing n with
  | nil =>
    obtain ⟨m, later, ⟨after, isOut⟩, is⟩ := taken [] n queued
    exact ⟨m, later, is, by rw [isOut]; rfl⟩
  | cons first before ih =>
    obtain ⟨m, later, ⟨after, isOut⟩, is⟩ := taken (first :: before) n queued
    have next := b.follows m
    rw [is] at next
    obtain ⟨head, popped⟩ := delivered next
    rw [isOut, List.cons_append] at popped
    obtain ⟨k, after_, here⟩ := ih (m + 1) ⟨after, (List.cons.inj popped).2.symm⟩
    exact ⟨k, by omega, here⟩

theorem out_told {n : Nat} {i : Int} (queued : ∃ notice ∈ (b.state n).out, notice.Tells i) :
    Told b n i := by
  obtain ⟨notice, member, tells⟩ := queued
  obtain ⟨before, after, isOut⟩ := List.append_of_mem member
  obtain ⟨m, later, is, head⟩ := out_delivered up before notice n ⟨after, isOut⟩
  exact ⟨m, later, is, notice, head, tells⟩

variable (starts : b.state 0 = .connected)
include starts

theorem room_again (n : Nat) (waiting : ∀ m, n ≤ m → (b.state m).notices ≠ []) :
    ∃ m, n ≤ m ∧ (step (b.state m) .send).isSome = true := by
  by_cases room : (b.state n).out.length < OUT_CAPACITY
  · exact ⟨n, Nat.le_refl n, can_send (waiting n (Nat.le_refl n)) room⟩
  · cases full : (b.state n).out with
    | nil =>
      rw [full] at room
      exact absurd (by decide) room
    | cons notice after =>
      obtain ⟨m, later, is, -⟩ := out_delivered up [] notice n ⟨after, full⟩
      have next := b.follows m
      rw [is] at next
      obtain ⟨head, popped⟩ := delivered next
      have within := (state_sound starts m).room
      rw [popped, List.length_cons] at within
      exact ⟨m + 1, by omega, can_send (waiting (m + 1) (by omega)) within⟩

theorem notices_sent (before : List UiNotice) (notice : UiNotice) (after : List UiNotice) (n : Nat)
    (waiting : (b.state n).notices = before ++ notice :: after) :
    ∃ m, n ≤ m ∧ (b.state m).notices = after ∧ notice ∈ (b.state m).out := by
  have taken : ∀ (notices : List UiNotice) (n : Nat), notices ≠ [] →
      (b.state n).notices = notices →
      ∃ m, n ≤ m ∧ (b.state m).notices = notices ∧ b.act m = .send := by
    intro notices n some_ waiting
    refine fair_taken (P := fun s => s.notices = notices) b up.2.2.2.2.1 ?_ ?_ waiting
    · intro s c t waits other next
      rw [notices_stay next other (by rw [waits]; exact some_), waits]
    · intro n all
      refine room_again up starts n ?_
      intro m later
      rw [all m later]
      exact some_
  induction before generalizing n with
  | nil =>
    obtain ⟨m, later, isNotices, is⟩ := taken _ n (by simp) waiting
    have next := b.follows m
    rw [is] at next
    obtain ⟨head, popped, isOut⟩ := sent next
    rw [isNotices, List.nil_append] at popped
    obtain ⟨rfl, rest⟩ := List.cons.inj popped
    exact ⟨m + 1, by omega, rest.symm, by rw [isOut]; simp⟩
  | cons first before ih =>
    obtain ⟨m, later, isNotices, is⟩ := taken _ n (by simp) waiting
    have next := b.follows m
    rw [is] at next
    obtain ⟨head, popped, -⟩ := sent next
    rw [isNotices, List.cons_append] at popped
    obtain ⟨k, after_, here⟩ := ih (m + 1) (List.cons.inj popped).2.symm
    exact ⟨k, by omega, here⟩

theorem notices_told {n : Nat} {i : Int} (waiting : ∃ notice ∈ (b.state n).notices, notice.Tells i) :
    Told b n i := by
  obtain ⟨notice, member, tells⟩ := waiting
  obtain ⟨before, after, isNotices⟩ := List.append_of_mem member
  obtain ⟨m, later, -, queued⟩ := notices_sent up starts before notice after n isNotices
  exact told_later later (out_told up ⟨notice, queued, tells⟩)

theorem idle_again (n : Nat) : ∃ m, n ≤ m ∧ (b.state m).notices = [] := by
  cases notices : (b.state n).notices with
  | nil => exact ⟨n, Nat.le_refl n, notices⟩
  | cons first rest =>
    have split_ : (b.state n).notices = (first :: rest).dropLast ++
        (first :: rest).getLast (by simp) :: [] := by
      rw [notices, List.dropLast_append_getLast]
    obtain ⟨m, later, sent_, -⟩ := notices_sent up starts _ _ _ n split_
    exact ⟨m, later, sent_⟩

theorem pending_told {n : Nat} {i : Int} (pending : i ∈ (b.state n).conflator.marks) :
    Told b n i := by
  obtain ⟨m, later, still, is⟩ := fair_taken (P := fun s => i ∈ s.conflator.marks) b up.2.2.2.1
    (fun s c t waits other next => marks_stay next other waits)
    (fun n _ => by
      obtain ⟨m, later, idle⟩ := idle_again up starts n
      exact ⟨m, later, by simp [step, Live.turn, idle]⟩) pending
  have next := b.follows m
  rw [is] at next
  obtain ⟨-, flushed⟩ := step_steps next
  obtain ⟨notice, made, tells⟩ := (take_marks_mem _ i).mp still
  refine told_later (Nat.le_succ_of_le later) (notices_told up starts ⟨notice, ?_, tells⟩)
  rw [flushed]
  exact Option.mem_toList.mpr made

theorem resync_told {n : Nat} {i : Int} (pending : (b.state n).conflator.resync = true) :
    Told b n i := by
  obtain ⟨m, later, still, is⟩ := fair_taken (P := fun s => s.conflator.resync = true) b up.2.2.1
    (fun s c t waits other next => resync_stays next other waits)
    (fun n _ => by
      obtain ⟨m, later, idle⟩ := idle_again up starts n
      exact ⟨m, later, by simp [step, Live.turn, idle]⟩) pending
  have next := b.follows m
  rw [is] at next
  obtain ⟨-, flushed⟩ := step_steps next
  refine told_later (Nat.le_succ_of_le later) (notices_told up starts ?_)
  rw [flushed]
  exact (take_fast_tells _ i).mpr still

theorem on_its_way_told {n : Nat} {i : Int} (way : OnItsWay (b.state n) i) : Told b n i := by
  rcases way with pending | resync | waiting | queued
  · exact pending_told up starts pending
  · exact resync_told up starts resync
  · exact notices_told up starts waiting
  · exact out_told up queued

theorem told_iff (n : Nat) (i : Int) : Told b n i ↔
    OnItsWay (b.state n) i ∨ ∃ m, n ≤ m ∧ Brings (b.state m) (b.act m) i := by
  constructor
  · exact told_from
  · intro due
    rcases due with way | ⟨m, later, brings⟩
    · exact on_its_way_told up starts way
    · have way := brings_way (b.follows m) brings
      exact told_later (Nat.le_succ_of_le later) (on_its_way_told up starts way)

theorem read_again (n : Nat) (behind : ∀ m, n ≤ m → (b.state m).price.Behind) :
    ∃ m, n ≤ m ∧ (step (b.state m) .recvPrice).isSome = true := by
  obtain ⟨m, later, idle⟩ := idle_again up starts n
  have opened : (b.state m).priceOpen = true := by
    cases shut : (b.state m).priceOpen with
    | true => rfl
    | false => exact absurd (behind m later) ((state_sound starts m).opened shut).2
  have able : ((b.state m).price.recv PRICE_LANE_CAPACITY (b.state m).closed).isSome = true :=
    recv_behind (behind m later)
  obtain ⟨⟨r, price⟩, received⟩ := Option.isSome_iff_exists.mp able
  refine ⟨m, later, ?_⟩
  simp only [step, idle, if_true, Live.turn, opened, received]
  rcases r with ⟨_ | _⟩ | _ <;> rfl

theorem read_or_skipped {k : Nat} {m : MarkUpdate} (left n : Nat)
    (at_ : (b.state n).price.log[k]? = some m) (ahead : (b.state n).price.next + left = k) :
    Skipped b k ∨ ∃ later, n ≤ later ∧ Brings (b.state later) (b.act later) m.instrumentId := by
  induction left using Nat.strongRecOn generalizing n with
  | ind left ih =>
    have near : ∀ s : Live, s.price.log[k]? = some m ∧ s.price.next + left = k →
        s.price.Behind := by
      intro s waits
      have inside := (List.getElem?_eq_some_iff.mp waits.1).1
      unfold Receiver.Behind
      omega
    obtain ⟨time, later, ⟨there, place⟩, is⟩ := fair_taken
      (P := fun s => s.price.log[k]? = some m ∧ s.price.next + left = k) b up.2.1
      (fun s c t waits other next => lane_waits next other waits)
      (fun n all => read_again up starts n fun m later => near _ (all m later)) ⟨at_, ahead⟩
    have next := b.follows time
    rw [is] at next
    obtain ⟨thereToo, moved⟩ := recv_price_moves next (near _ ⟨there, place⟩)
    rw [← thereToo] at there
    -- unless this receive passes the mark or reads it, the receiver is nearer to it
    have nearer : (b.state time).price.next < (b.state (time + 1)).price.next →
        (b.state (time + 1)).price.next ≤ k → Skipped b k ∨
          ∃ later, n ≤ later ∧ Brings (b.state later) (b.act later) m.instrumentId := by
      intro on short
      rcases ih (k - (b.state (time + 1)).price.next) (by omega) (time + 1) there (by omega) with
        skipped | ⟨read, beyond, brings⟩
      · exact Or.inl skipped
      · exact Or.inr ⟨read, by omega, brings⟩
    rcases moved with ⟨lags, nextIs⟩ | ⟨kept, nextIs⟩
    · by_cases past : k < (b.state time).price.oldest PRICE_LANE_CAPACITY
      · exact Or.inl ⟨time, is, by omega, past⟩
      · exact nearer (by omega) (by omega)
    · by_cases here : (b.state time).price.next = k
      · refine Or.inr ⟨time, later, ?_⟩
        rw [is, Brings, here]
        rw [here] at kept
        rw [thereToo] at there
        exact ⟨kept, m, there, rfl⟩
      · exact nearer (by omega) (by omega)

end

/-- In every run of a connection that stays up, no published mark goes untold exactly
    if those the pump skips on a lag of the price lane are told of another way. -/
theorem price_notices_sent_iff {b : Behavior step} (up : Up b) (starts : b.state 0 = .connected) :
    NoneLost b ↔ SkipsCovered b := by
  constructor
  · intro none_ n m is _
    exact told_from (none_ n m is)
  · intro covered n m is
    refine (told_iff up starts n m.instrumentId).mpr ?_
    have next := b.follows n
    rw [is] at next
    obtain ⟨-, after⟩ := step_steps next
    have reading := (state_sound starts n).reading
    have at_ : (b.state (n + 1)).price.log[(b.state n).price.log.length]? = some m := by
      rw [after]
      simp [Receiver.send]
    have nextIs : (b.state (n + 1)).price.next = (b.state n).price.next := by
      rw [after]
      rfl
    rcases read_or_skipped up starts ((b.state n).price.log.length - (b.state n).price.next) (n + 1)
      at_ (by omega) with skipped | ⟨later, beyond, brings⟩
    · exact covered n m is skipped
    · exact Or.inr ⟨later, by omega, brings⟩

theorem log_kept {s t : Live} {a : Action} (next : step s a = some t)
    (other : ∀ m, a ≠ .publishMark m) : t.price.log = s.price.log := by
  rcases price_moves next with ⟨same, -⟩ | ⟨m, is, -⟩ | ⟨-, -, r, received, -⟩
  · rw [same]
  · exact absurd is (other m)
  · exact recv_log received

theorem log_from {b : Behavior step} {n : Nat} (quiet : ∀ k m, n ≤ k → b.act k ≠ .publishMark m)
    {k : Nat} (later : n ≤ k) : (b.state k).price.log = (b.state n).price.log := by
  induction later with
  | refl => rfl
  | @step k later ih => rw [log_kept (b.follows k) fun m => quiet k m later, ih]

def holding (price : Receiver MarkUpdate) (conflator : Conflator) : Live :=
  { Live.connected with price, conflator }

def resting (price : Receiver MarkUpdate) : Live := holding price .default

def tick (n : Nat) : Action := if n % 2 = 0 then .slowTick else .fastTick

def rest (price : Receiver MarkUpdate) : Behavior step where
  state _ := resting price
  act := tick
  follows n := by
    unfold tick
    split <;> rfl

theorem rest_order (price : Receiver MarkUpdate) : step (resting price) .recvOrder = none := by
  have empty : ¬ (Receiver.subscribe : Receiver OrderLaneEvent).Behind := Nat.lt_irrefl 0
  have idle : (resting price).order.recv ORDER_LANE_CAPACITY (resting price).closed = none :=
    recv_drained empty
  have notices : (resting price).notices = [] := rfl
  simp only [step, notices, Live.turn, idle, ite_self]

theorem rest_price {price : Receiver MarkUpdate} (read : ¬ price.Behind) :
    step (resting price) .recvPrice = none := by
  have idle : (resting price).price.recv PRICE_LANE_CAPACITY (resting price).closed = none :=
    recv_drained read
  have notices : (resting price).notices = [] := rfl
  simp only [step, notices, Live.turn, idle, ite_self]

theorem rest_up {b : Behavior step} {n : Nat} {price : Receiver MarkUpdate} (read : ¬ price.Behind)
    (rests : ∀ k, b.state (n + k) = (rest price).state k ∧ b.act (n + k) = (rest price).act k) :
    Up b := by
  have never : ∀ a, step (resting price) a = none → Fair b a := by
    intro a none_
    refine fair_of_never (n := n) ?_
    intro m later
    obtain ⟨k, rfl⟩ := Nat.exists_eq_add_of_le later
    rw [(rests k).1]
    exact none_
  refine ⟨never _ (rest_order price), never _ (rest_price read), fair_of_often ?_, fair_of_often ?_,
    never _ rfl, never _ rfl⟩
  · intro k
    refine ⟨n + (2 * k + 1), by omega, ?_⟩
    rw [(rests _).2]
    exact if_neg (by omega)
  · intro k
    refine ⟨n + 2 * k, by omega, ?_⟩
    rw [(rests _).2]
    exact if_pos (by omega)

theorem acts_from {P : Action → Prop} {b : Behavior step} {as bs : List Action}
    (acts : ∀ n a, (as ++ bs)[n]? = some a → b.act n = a)
    (ticks : ∀ n, b.act ((as ++ bs).length + n) = tick n)
    (listed : ∀ a ∈ bs, P a) (flushes : ∀ n, P (tick n)) {k : Nat} (later : as.length ≤ k) :
    P (b.act k) := by
  by_cases within : k < (as ++ bs).length
  · have there := List.getElem?_eq_getElem within
    rw [acts k _ there]
    rw [List.getElem?_append_right later] at there
    exact listed _ (List.mem_of_getElem? there)
  · obtain ⟨n, rfl⟩ := Nat.exists_eq_add_of_le (Nat.not_lt.mp within)
    rw [ticks]
    exact flushes n

theorem tick_cases (n : Nat) : tick n = .slowTick ∨ tick n = .fastTick := by
  unfold tick
  split
  · exact Or.inl rfl
  · exact Or.inr rfl

theorem tick_quiet (n : Nat) (m : MarkUpdate) : tick n ≠ .publishMark m := by
  rcases tick_cases n with is | is <;> simp [is]

def markOf (instrumentId : Int) : MarkUpdate := ⟨instrumentId, 1, 2⟩

def single : List Action := [.publishMark (markOf 7)] ++ [.recvPrice, .slowTick, .send, .deliver]

theorem single_rests : run step .connected single = some ((rest ⟨[markOf 7], 1⟩).state 0) := rfl

theorem single_mark_told : ∃ b : Behavior step, b.state 0 = .connected ∧ Up b ∧
    b.act 0 = .publishMark (markOf 7) ∧ NoneLost b := by
  obtain ⟨b, starts, acts, states, tail⟩ := exists_after _ single_rests
  have up : Up b := rest_up (n := single.length) (by decide) tail
  refine ⟨b, starts, up, acts 0 _ rfl, (price_notices_sent_iff up starts).mpr ?_⟩
  intro n m is skipped
  obtain ⟨time, reads, -, past⟩ := skipped
  have quiet : ∀ k m, 1 ≤ k → b.act k ≠ .publishMark m := fun k m later =>
    acts_from (P := fun a => a ≠ .publishMark m) acts (fun n => (tail n).2) (by simp)
      (fun n => tick_quiet n m) later
  have log : (b.state time).price.log = [markOf 7] := by
    cases time with
    | zero => cases (acts 0 _ rfl).symm.trans reads
    | succ time =>
      have first : b.state 1 = resting ⟨[markOf 7], 0⟩ := Option.some.inj (states 1 (by decide)).symm
      rw [log_from quiet (Nat.succ_le_succ (Nat.zero_le time))]
      exact congrArg (·.price.log) first
  rw [Receiver.oldest, log, PRICE_LANE_CAPACITY] at past
  exact absurd past (Nat.not_lt_zero _)

/-- One mark, and then as many of another instrument as the lane holds. -/
def burst : List Action :=
  .publishMark (markOf 7) :: List.replicate PRICE_LANE_CAPACITY (.publishMark (markOf 1))

/-- The pump finds the lag, reads what is left and flushes it. -/
def caughtUp : List Action :=
  .recvPrice :: List.replicate PRICE_LANE_CAPACITY .recvPrice ++ [.slowTick, .send, .deliver]

def burstLog : List MarkUpdate := markOf 7 :: List.replicate PRICE_LANE_CAPACITY (markOf 1)

theorem publishes_run (m : MarkUpdate) (n : Nat) (log : List MarkUpdate) :
    run step (resting ⟨log, 0⟩) (List.replicate n (.publishMark m)) =
      some (resting ⟨log ++ List.replicate n m, 0⟩) := by
  induction n generalizing log with
  | zero => simp [run]
  | succ n ih =>
    rw [List.replicate_succ, List.replicate_succ]
    refine run_cons.mpr ⟨resting ⟨log ++ [m], 0⟩, rfl, ?_⟩
    rw [ih, List.append_assoc]
    rfl

theorem read_step {s : Live} {m : MarkUpdate} (idle : s.notices = []) (opened : s.priceOpen = true)
    (kept : s.price.oldest PRICE_LANE_CAPACITY ≤ s.price.next)
    (at_ : s.price.log[s.price.next]? = some m) :
    step s .recvPrice = some { s with
      price := { s.price with next := s.price.next + 1 }
      conflator := s.conflator.onMark m } := by
  simp only [step, idle, if_true, Live.turn, opened, recv_kept kept at_]

theorem skip_step {s : Live} (idle : s.notices = []) (opened : s.priceOpen = true)
    (lags : s.price.next < s.price.oldest PRICE_LANE_CAPACITY) :
    step s .recvPrice = some { s with
      price := { s.price with next := s.price.oldest PRICE_LANE_CAPACITY } } := by
  simp only [step, idle, if_true, Live.turn, opened, recv_lags lags]

theorem reads_run (log : List MarkUpdate) (m : MarkUpdate) (n k : Nat) (c : Conflator)
    (all : ∀ j < n, log[k + j]? = some m) (fits : log.length - PRICE_LANE_CAPACITY ≤ k) :
    ∃ marks, run step (holding ⟨log, k⟩ c) (List.replicate n .recvPrice) =
        some (holding ⟨log, k + n⟩ { c with marks }) ∧
      (0 < n → m.instrumentId ∈ marks) ∧ ∀ i ∈ c.marks, i ∈ marks := by
  induction n generalizing k c with
  | zero => exact ⟨c.marks, rfl, fun some_ => absurd some_ (Nat.lt_irrefl 0), fun i member => member⟩
  | succ n ih =>
    have rest : ∀ j < n, log[k + 1 + j]? = some m := by
      intro j less
      have at_ := all (j + 1) (by omega)
      rwa [show k + 1 + j = k + (j + 1) by omega]
    obtain ⟨marks, reads, -, kept⟩ := ih (k + 1) (c.onMark m) rest (Nat.le_succ_of_le fits)
    refine ⟨marks, ?_, ?_, ?_⟩
    · rw [List.replicate_succ]
      refine run_cons.mpr ⟨holding ⟨log, k + 1⟩ (c.onMark m),
        read_step rfl rfl fits (all 0 (Nat.succ_pos n)), ?_⟩
      rw [reads, Nat.add_assoc, Nat.add_comm 1 n]
      rfl
    · intro _
      exact kept _ (mem_on_price (r := .ok m).mpr (Or.inr ⟨m, rfl, rfl⟩))
    · intro i member
      exact kept i (mem_on_price (r := .ok m).mpr (Or.inl member))

theorem flush_run {price : Receiver MarkUpdate} {marks : Std.ExtTreeSet Int} {i : Int}
    (pending : i ∈ marks) :
    run step (holding price { Conflator.default with marks }) [.slowTick, .send, .deliver] =
      some (resting price) := by
  have some_ : marks.isEmpty = false := by
    cases empty : marks.isEmpty with
    | false => rfl
    | true =>
      rw [Std.ExtTreeSet.isEmpty_iff.mp empty] at pending
      exact absurd pending Std.ExtTreeSet.not_mem_empty
  simp [run, step, Live.turn, holding, resting, Live.connected, Conflator.takeMarks,
    Conflator.default, some_, OUT_CAPACITY]

theorem burst_run : run step .connected burst = some (resting ⟨burstLog, 0⟩) := by
  refine run_cons.mpr ⟨resting ⟨[markOf 7], 0⟩, rfl, ?_⟩
  exact publishes_run (markOf 1) PRICE_LANE_CAPACITY [markOf 7]

theorem burst_length : burstLog.length = PRICE_LANE_CAPACITY + 1 := by
  rw [burstLog, List.length_cons, List.length_replicate]

theorem burst_oldest : (Receiver.mk burstLog 0).oldest PRICE_LANE_CAPACITY = 1 := by
  rw [Receiver.oldest, burst_length, Nat.add_sub_cancel_left]

theorem lag_step : step (resting ⟨burstLog, 0⟩) .recvPrice = some (resting ⟨burstLog, 1⟩) := by
  have lags : (resting ⟨burstLog, 0⟩).price.next <
      (resting ⟨burstLog, 0⟩).price.oldest PRICE_LANE_CAPACITY := by
    have oldest : (resting ⟨burstLog, 0⟩).price.oldest PRICE_LANE_CAPACITY = 1 := burst_oldest
    rw [oldest]
    exact Nat.zero_lt_one
  rw [skip_step rfl rfl lags]
  have oldest : (resting ⟨burstLog, 0⟩).price.oldest PRICE_LANE_CAPACITY = 1 := burst_oldest
  rw [oldest]
  rfl

theorem caught_up_run : run step (resting ⟨burstLog, 0⟩) caughtUp =
    some ((rest ⟨burstLog, 1 + PRICE_LANE_CAPACITY⟩).state 0) := by
  refine run_cons.mpr ⟨_, lag_step, ?_⟩
  have all : ∀ j < PRICE_LANE_CAPACITY, burstLog[1 + j]? = some (markOf 1) := by
    intro j less
    rw [burstLog, Nat.add_comm, List.getElem?_cons_succ]
    exact List.getElem?_replicate_of_lt less
  obtain ⟨marks, reads, named, -⟩ := reads_run burstLog (markOf 1) PRICE_LANE_CAPACITY 1 .default all
    (by rw [burst_length, Nat.add_sub_cancel_left])
  exact run_append reads (flush_run (named (by decide)))

theorem burst_publishes : ∀ a ∈ burst, ∃ m, a = .publishMark m := by
  intro a member
  rcases List.mem_cons.mp member with first | later
  · exact ⟨markOf 7, first⟩
  · exact ⟨markOf 1, (List.mem_replicate.mp later).2⟩

theorem caught_up_cases : ∀ a ∈ caughtUp,
    a = .recvPrice ∨ a = .slowTick ∨ a = .send ∨ a = .deliver := by
  intro a member
  simp only [caughtUp, List.cons_append, List.mem_cons, List.mem_append, List.mem_replicate,
    List.not_mem_nil, or_false] at member
  rcases member with is | ⟨-, is⟩ | rest
  · exact Or.inl is
  · exact Or.inl is
  · exact Or.inr rest

theorem burst_log_later {k : Nat} {m : MarkUpdate} (at_ : burstLog[k]? = some m) (past : 1 ≤ k) :
    m = markOf 1 := by
  obtain ⟨j, rfl⟩ := Nat.exists_eq_add_of_le past
  rw [burstLog, Nat.add_comm, List.getElem?_cons_succ] at at_
  exact (List.mem_replicate.mp (List.mem_of_getElem? at_)).2

/-- The burst's first mark is skipped and its instrument not marked again: the client
    hears nothing of it. -/
theorem skipped_mark_untold : ∃ b : Behavior step, b.state 0 = .connected ∧ Up b ∧
    (∀ n a, (burst ++ caughtUp)[n]? = some a → b.act n = a) ∧ ¬ NoneLost b := by
  obtain ⟨b, starts, acts, states, tail⟩ := exists_after _ (run_append burst_run caught_up_run)
  have up : Up b := by
    refine rest_up (n := (burst ++ caughtUp).length) ?_ tail
    unfold Receiver.Behind
    rw [burst_length, Nat.add_comm]
    exact Nat.lt_irrefl _
  refine ⟨b, starts, up, acts, ?_⟩
  intro none_
  cases told_from (none_ 0 (markOf 7) (acts 0 _ rfl)) with
  | inl way =>
    rw [starts] at way
    rcases way with pending | resync | ⟨notice, member, -⟩ | ⟨notice, member, -⟩
    · exact absurd pending Std.ExtTreeSet.not_mem_empty
    · cases resync
    · cases member
    · cases member
  | inr later =>
    obtain ⟨time, -, brings⟩ := later
    have ticks := fun n => (tail n).2
    have noOrders : b.act time ≠ .recvOrder := by
      refine @acts_from (fun a => a ≠ .recvOrder) b [] (burst ++ caughtUp) acts ticks ?_ ?_ time
        (Nat.zero_le time)
      · intro a member
        rcases List.mem_append.mp member with early | late
        · obtain ⟨m, rfl⟩ := burst_publishes a early
          simp
        · rcases caught_up_cases a late with rfl | rfl | rfl | rfl <;> simp
      · intro n
        rcases tick_cases n with is | is <;> simp [is]
    cases is : b.act time with
    | recvPrice =>
      rw [is] at brings
      obtain ⟨kept, m, at_, named⟩ := brings
      have late : burst.length ≤ time := by
        refine Nat.not_lt.mp ?_
        intro early
        have there : (burst ++ caughtUp)[time]? = some burst[time] := by
          rw [List.getElem?_append_left early]
          exact List.getElem?_eq_getElem early
        obtain ⟨published, isPublish⟩ := burst_publishes _ (List.getElem_mem early)
        rw [acts time _ there, isPublish] at is
        cases is
      have quiet : ∀ k m, burst.length ≤ k → b.act k ≠ .publishMark m := fun k m later =>
        acts_from (P := fun a => a ≠ .publishMark m) acts ticks
          (fun a member => by
            rcases caught_up_cases a member with rfl | rfl | rfl | rfl <;> simp)
          (fun n => tick_quiet n m) later
      have full : b.state burst.length = resting ⟨burstLog, 0⟩ := by
        have reached := states burst.length (by rw [List.length_append]; exact Nat.le_add_right _ _)
        rw [List.take_left' rfl, burst_run] at reached
        exact (Option.some.inj reached).symm
      have log : (b.state time).price.log = burstLog := by
        rw [log_from quiet late, full]
        rfl
      have oldest : (b.state time).price.oldest PRICE_LANE_CAPACITY = 1 := by
        rw [Receiver.oldest, log, burst_length, Nat.add_sub_cancel_left]
      rw [oldest] at kept
      rw [log] at at_
      rw [burst_log_later at_ kept] at named
      exact absurd named (by decide)
    | recvOrder => exact noOrders is
    | _ =>
      rw [is] at brings
      exact absurd brings id

end OmsPriceNotices
