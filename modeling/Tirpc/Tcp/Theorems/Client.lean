import Tirpc.Base.Lemmas.Timer
import Tirpc.Tcp.Client

/-!
# Does the timeout of a call end with the call?

Three exits of a call and its success delete the timer event; those behind `err_deal` rely on its having
fired. They are also reached when the peer closes, and when the flag of the connection is left from an earlier
call. And a deletion does not help when `OnTimer` has collected the callback and not started it.
-/

namespace Tirpc

open Lib Timer

variable {E : Type} [DecidableEq E]

/-- The callback of a call that has returned is neither pending nor about to be started. -/
def NoLateTimeout (s : TcpClient E) : Prop :=
  ∀ e ∈ s.returned.map Prod.fst, e ∉ s.timer.timer.pendingEvents.map Prod.snd ∧ e ∉ s.timer.timer.tasks

/-- At an exit that deletes the event, `OnTimer` is not between collecting the callback and starting it; and
`err_deal` is only reached when the callback has set its flag. -/
def ExitFits (s : TcpClient E) (call : ClientCall E) : ClientStep E → Prop
  | .connectReturns rt errno _ =>
      rt ≠ 0 → errno = ECONNREFUSED ∨ errno = EAFNOSUPPORT → call.event ∉ s.timer.timer.tasks
  | .connectEnded _ => s.state ≠ .connected → call.event ∉ s.timer.timer.tasks
  | .replyLoop found => found = true → call.event ∉ s.timer.timer.tasks
  | .sent _ => s.isOverTime = true → call.isTimeout = true
  | .received _ => s.isOverTime = true ∨ s.state = .closed → call.isTimeout = true
  | _ => True

def ExitsFit (s : TcpClient E) (l : ClientStep E) : Prop := ∀ call ∈ s.call, ExitFits s call l

instance (s : TcpClient E) (call : ClientCall E) : (l : ClientStep E) → Decidable (ExitFits s call l)
  | .connectReturns .. => inferInstanceAs (Decidable (_ → _ → _))
  | .connectEnded _ => inferInstanceAs (Decidable (_ → _))
  | .replyLoop _ => inferInstanceAs (Decidable (_ → _))
  | .sent _ => inferInstanceAs (Decidable (_ → _))
  | .received _ => inferInstanceAs (Decidable (_ → _))
  | .call .. | .connectLoop | .outputReturns | .inputReturns _ | .timer _ => inferInstanceAs (Decidable True)

instance (s : TcpClient E) (l : ClientStep E) : Decidable (ExitsFit s l) :=
  inferInstanceAs (Decidable (∀ call ∈ s.call, ExitFits s call l))

/-! ## The events of the calls -/

structure EventsKept (s : TcpClient E) : Prop where
  ordered : Ordered s.timer.timer.pendingEvents
  current : ∀ call ∈ s.call, Once s.timer.timer call.event ∧ call.event ∉ s.returned.map Prod.fst ∧
    (call.isTimeout = true → s.timer.timer.occurrences call.event = 0)
  gone : ∀ e ∈ s.returned.map Prod.fst, Once s.timer.timer e ∧ s.timer.timer.occurrences e = 0

/-- The timer still has the event at most once, and no more often than before. -/
def Keeps (t t' : Timer E) (e : E) : Prop := Once t e → Once t' e ∧ t'.occurrences e ≤ t.occurrences e

variable {s s' : TcpClient E} {t t' : Timer E} {e event : E} {call : ClientCall E} {now : Int}

theorem keeps_aside (h : Aside t t' e) : Keeps t t' e := fun ho => ⟨ho.aside h, Nat.le_of_eq h.occurs⟩

theorem keeps_del : Keeps t (t.delTimerEvent event) e := fun ho => ⟨ho.del, delTimerEvent_occurrences_le⟩

theorem keeps_startTask {rest : List E} (h : t.tasks = event :: rest) : Keeps t { t with tasks := rest } e := by
  intro ho
  have hle : ({ t with tasks := rest } : Timer E).occurrences e ≤ t.occurrences e := by
    rw [occurrences_eq, occurrences_eq, h, List.count_cons]
    exact Nat.add_le_add_left (Nat.le_add_right _ _) _
  exact ⟨⟨Nat.le_trans hle ho.occurs, ho.keyed, ho.oneShot⟩, hle⟩

theorem startTask_occurrences {rest : List E} (h : t.tasks = event :: rest) (ho : t.occurrences event ≤ 1) :
    ({ t with tasks := rest } : Timer E).occurrences event = 0 := by
  rw [occurrences_eq, h, List.count_cons_self] at ho
  rw [occurrences_eq]
  show (t.pendingEvents.map Prod.snd).count event + rest.count event = 0
  omega

theorem EventsKept.withTimer (h : EventsKept s) {u : TimerState E} (ho : Ordered u.timer.pendingEvents)
    (hkeeps : ∀ e, s.Owns e → Keeps s.timer.timer u.timer e) : EventsKept { s with timer := u } := by
  refine ⟨ho, fun call hc => ?_, fun e he => ?_⟩
  · obtain ⟨honce, hnot, hzero⟩ := h.current call hc
    obtain ⟨honce', hle⟩ := hkeeps call.event (.inl ⟨call, hc, rfl⟩) honce
    exact ⟨honce', hnot, fun ht => Nat.le_zero.mp (hzero ht ▸ hle)⟩
  · obtain ⟨honce, hzero⟩ := h.gone e he
    obtain ⟨honce', hle⟩ := hkeeps e (.inr he) honce
    exact ⟨honce', Nat.le_zero.mp (hzero ▸ hle)⟩

/-- A call goes on: only its place, and data of the client that are not its events, change. -/
theorem EventsKept.goto (h : EventsKept s) (hc : s.call = some call)
    (hs : s'.timer = s.timer) (hr : s'.returned = s.returned) {place : CallPlace} :
    EventsKept (s'.goto call place) := by
  refine ⟨hs ▸ h.ordered, fun c hc' => ?_, fun e he => ?_⟩
  · cases hc'
    simp only [TcpClient.goto, hs, hr]
    exact h.current call hc
  · simp only [TcpClient.goto, hs, hr] at he ⊢
    exact h.gone e he

/-- A call returns when its event is gone. -/
theorem EventsKept.leave (h : EventsKept s) (hc : s.call = some call) (hs : s'.timer.timer = t')
    (hr : s'.returned = s.returned) (ho : Ordered t'.pendingEvents) (hkeeps : ∀ e, Keeps s.timer.timer t' e)
    (hgone : t'.occurrences call.event = 0) (code : Int) : EventsKept (s'.leave call code) := by
  subst hs
  refine ⟨ho, fun c hc' => ?_, fun e he => ?_⟩
  · cases hc'
  simp only [TcpClient.leave, hr, List.map_append, List.map_cons, List.map_nil, List.mem_append,
    List.mem_singleton] at he ⊢
  rcases he with he | rfl
  · obtain ⟨honce, hzero⟩ := h.gone e he
    obtain ⟨honce', hle⟩ := hkeeps e honce
    exact ⟨honce', Nat.le_zero.mp (hzero ▸ hle)⟩
  · exact ⟨(hkeeps call.event (h.current call hc).1).1, hgone⟩

theorem EventsKept.del (h : EventsKept s) (hc : s.call = some call) (htasks : call.event ∉ s.timer.timer.tasks)
    (hs : s'.timer.timer = s.timer.timer.delTimerEvent call.event) (hr : s'.returned = s.returned) (code : Int) :
    EventsKept (s'.leave call code) := by
  have honce := (h.current call hc).1
  exact h.leave hc hs hr (h.ordered.sublist delTimerEvent_sublist) (fun e => keeps_del)
    (delTimerEvent_gone h.ordered honce.keyed honce.occurs htasks) code

theorem EventsKept.errDeal (h : EventsKept s) (hc : s.call = some call) (ht : call.isTimeout = true)
    (isTimeout : Bool) (newFd : Int) : EventsKept (s.errDeal call isTimeout newFd) := by
  have hzero := (h.current call hc).2.2 ht
  simp only [TcpClient.errDeal]
  split
  · refine h.leave hc ?_ ?_ h.ordered (fun e ho => ⟨ho, Nat.le_refl _⟩) hzero _ <;> rfl
  · refine h.leave hc ?_ ?_ h.ordered (fun e ho => ⟨ho, Nat.le_refl _⟩) hzero _ <;> rfl

/-! ## The steps -/

/-- A callback that starts: if it is that of the call, it sets the flag of the call. -/
theorem EventsKept.timerCb (h : EventsKept s)
    (hgone : ∀ call ∈ s.call, call.event = event → s.timer.timer.occurrences event = 0) :
    EventsKept (s.timerCb event) := by
  simp only [TcpClient.timerCb]
  split
  · rename_i call hc
    split
    · rename_i he
      refine ⟨h.ordered, fun c hc' => ?_, h.gone⟩
      cases hc'
      obtain ⟨honce, hnot, -⟩ := h.current call hc
      exact ⟨honce, hnot, fun _ => he ▸ hgone call hc he⟩
    · split
      · exact ⟨h.ordered, h.current, h.gone⟩
      · exact h
  · split
    · exact ⟨h.ordered, h.current, h.gone⟩
    · exact h

theorem timerStep_kept {l : TimerStep E} (h : EventsKept s) (hn : s.timerStep l = some s') : EventsKept s' := by
  cases l with
  | add event now =>
      simp only [TcpClient.timerStep] at hn
      split at hn
      · cases hn
      · rename_i hown
        obtain ⟨u, hu, rfl⟩ := Option.map_eq_some_iff.mp hn
        obtain ⟨-, hu⟩ := Option.ite_none_right_eq_some.mp hu
        cases hu
        refine h.withTimer ?_ fun e he => keeps_aside (addTimerEvent_aside fun heq => hown (heq ▸ he))
        rw [addTimerEvent_pendingEvents]
        exact emplace_ordered h.ordered
  | del event =>
      simp only [TcpClient.timerStep] at hn
      split at hn
      · cases hn
      · obtain ⟨u, hu, rfl⟩ := Option.map_eq_some_iff.mp hn
        cases hu
        exact h.withTimer (h.ordered.sublist delTimerEvent_sublist) fun e _ => keeps_del
  | onTimer now resets last =>
      obtain ⟨u, hu, rfl⟩ := Option.map_eq_some_iff.mp hn
      obtain ⟨⟨htasks, -, -⟩, hu⟩ := Option.ite_none_right_eq_some.mp hu
      cases hu
      exact h.withTimer (onTimer_ordered h.ordered) fun e _ ho =>
        keeps_aside (onTimer_aside ho.oneShot htasks) ho
  | startTask =>
      simp only [TcpClient.timerStep] at hn
      split at hn
      · cases hn
      · rename_i event rest htasks
        obtain ⟨s₁, hs₁, rfl⟩ := Option.map_eq_some_iff.mp hn
        obtain ⟨u, hu, rfl⟩ := Option.map_eq_some_iff.mp hs₁
        simp only [timerNext, htasks, Option.some.injEq] at hu
        subst hu
        have hkept : EventsKept { s with timer := { s.timer with timer := { s.timer.timer with tasks := rest } } } :=
          h.withTimer h.ordered fun e _ => keeps_startTask htasks
        refine hkept.timerCb fun call hc he => ?_
        exact startTask_occurrences htasks (he ▸ (h.current call hc).1.occurs)
  | elapse now =>
      obtain ⟨u, hu, rfl⟩ := Option.map_eq_some_iff.mp hn
      obtain ⟨-, hu⟩ := Option.ite_none_right_eq_some.mp hu
      cases hu
      exact h.withTimer h.ordered fun e _ ho => ⟨ho, Nat.le_refl _⟩

/-- A call begins: its event is new, so it is pending once, and the others are where they were. -/
theorem EventsKept.begin (h : EventsKept s) (hfresh : s.Fresh event) :
    EventsKept { s.addTimerEvent event now with call := some { event := event } } := by
  obtain ⟨hpend, htasks, hret⟩ := hfresh
  have hzero : s.timer.timer.occurrences event = 0 := by
    rw [occurrences_eq, List.count_eq_zero_of_not_mem hpend, List.count_eq_zero_of_not_mem htasks]
  refine ⟨?_, fun call hcall => ?_, fun e he => ?_⟩
  · simp only [TcpClient.addTimerEvent, addTimerEvent_pendingEvents]
    exact emplace_ordered h.ordered
  · cases hcall
    exact ⟨Once.added hzero rfl, hret, fun ht => by cases ht⟩
  · have hne : event ≠ e := fun heq => hret (heq ▸ he)
    obtain ⟨honce, hgone⟩ := h.gone e he
    have haside : Aside s.timer.timer (s.addTimerEvent event now).timer.timer e :=
      (update_aside hne).trans (addTimerEvent_aside hne)
    exact ⟨honce.aside haside, haside.occurs.trans hgone⟩

variable {strerror : Int → Bytes} {l : ClientStep E}

/-- What a step of a call can do: go on, delete the event and return, or return through `err_deal`. -/
inductive CallMoves (s : TcpClient E) (call : ClientCall E) (l : ClientStep E) : TcpClient E → Prop
  | goesOn {u : TcpClient E} {place} (htimer : u.timer = s.timer) (hreturned : u.returned = s.returned) :
      CallMoves s call l (u.goto call place)
  | deletes {u : TcpClient E} {code} (hfits : ExitFits s call l → call.event ∉ s.timer.timer.tasks)
      (htimer : u.timer.timer = s.timer.timer.delTimerEvent call.event) (hreturned : u.returned = s.returned) :
      CallMoves s call l (u.leave call code)
  | errDeals {isTimeout newFd} (hfits : ExitFits s call l → call.isTimeout = true) :
      CallMoves s call l (s.errDeal call isTimeout newFd)

theorem callStep_moves (hn : s.callStep strerror call l = some s') : CallMoves s call l s' := by
  cases l with
  | call event now => cases hn
  | timer step => cases hn
  | connectLoop =>
      obtain ⟨-, hn⟩ := Option.ite_none_right_eq_some.mp hn
      split at hn
      · cases hn
        exact .goesOn rfl rfl
      · split at hn
        · cases hn
          exact .goesOn rfl rfl
        · cases hn
          exact .goesOn rfl rfl
  | connectReturns rt errno newFd =>
      obtain ⟨-, hn⟩ := Option.ite_none_right_eq_some.mp hn
      split at hn
      · cases hn
        exact .goesOn rfl rfl
      · rename_i hrt
        simp only at hn
        split at hn
        · rename_i herr
          cases hn
          exact .deletes (fun hfit => hfit hrt (.inl herr)) rfl rfl
        · split at hn
          · rename_i herr
            cases hn
            exact .deletes (fun hfit => hfit hrt (.inr herr)) rfl rfl
          · cases hn
            exact .goesOn rfl rfl
  | connectEnded errno =>
      obtain ⟨-, hn⟩ := Option.ite_none_right_eq_some.mp hn
      split at hn
      · rename_i hstate
        cases hn
        exact .deletes (fun hfit => hfit hstate) rfl rfl
      · cases hn
        exact .goesOn rfl rfl
  | outputReturns =>
      obtain ⟨-, hn⟩ := Option.ite_none_right_eq_some.mp hn
      cases hn
      exact .goesOn rfl rfl
  | sent newFd =>
      obtain ⟨-, hn⟩ := Option.ite_none_right_eq_some.mp hn
      split at hn
      · rename_i hover
        cases hn
        exact .errDeals fun hfit => hfit hover
      · cases hn
        exact .goesOn rfl rfl
  | replyLoop found =>
      obtain ⟨-, hn⟩ := Option.ite_none_right_eq_some.mp hn
      split at hn
      · rename_i hfound
        cases hn
        exact .deletes (fun hfit => hfit hfound) rfl rfl
      · cases hn
        exact .goesOn rfl rfl
  | inputReturns result =>
      obtain ⟨-, hn⟩ := Option.ite_none_right_eq_some.mp hn
      split at hn
      · cases hn
        exact .goesOn rfl rfl
      · cases hn
        exact .goesOn rfl rfl
  | received newFd =>
      obtain ⟨-, hn⟩ := Option.ite_none_right_eq_some.mp hn
      split at hn
      · rename_i hover
        cases hn
        exact .errDeals fun hfit => hfit (.inl hover)
      · split at hn
        · rename_i hstate
          cases hn
          exact .errDeals fun hfit => hfit (.inr hstate)
        · cases hn
          exact .goesOn rfl rfl

theorem callStep_kept (h : EventsKept s) (hc : s.call = some call) (hfit : ExitFits s call l)
    (hn : s.callStep strerror call l = some s') : EventsKept s' := by
  cases callStep_moves hn with
  | goesOn htimer hreturned => exact h.goto hc htimer hreturned
  | deletes hfits htimer hreturned => exact h.del hc (hfits hfit) htimer hreturned _
  | errDeals hfits => exact h.errDeal hc (hfits hfit) _ _

theorem clientNext_kept (h : EventsKept s) (hfit : ExitsFit s l) (hn : clientNext strerror s l = some s') :
    EventsKept s' := by
  cases hc : s.call with
  | none =>
      cases l with
      | timer step =>
          simp only [clientNext] at hn
          exact timerStep_kept h hn
      | call event now =>
          simp only [clientNext, hc] at hn
          obtain ⟨⟨hfresh, -⟩, hn⟩ := Option.ite_none_right_eq_some.mp hn
          cases hn
          exact h.begin hfresh
      | _ => simp [clientNext, hc] at hn
  | some call =>
      have hexit : ExitFits s call l := hfit call hc
      cases l with
      | timer step =>
          simp only [clientNext] at hn
          exact timerStep_kept h hn
      | call event now => simp [clientNext, hc] at hn
      | _ =>
          simp only [clientNext, hc] at hn
          exact callStep_kept h hc hexit hn

theorem EventsKept.noLateTimeout (h : EventsKept s) : NoLateTimeout s := by
  intro e he
  have hzero := (h.gone e he).2
  rw [occurrences_eq] at hzero
  exact ⟨List.count_eq_zero.mp (Nat.eq_zero_of_add_eq_zero_right hzero),
    List.count_eq_zero.mp (Nat.eq_zero_of_add_eq_zero_left hzero)⟩

/-- In every run whose exits fit, no callback of a call starts behind the call. -/
theorem no_late_timeout (h : Reachable (clientNext strerror) ClientStart ExitsFit s) : NoLateTimeout s := by
  refine (h.invariant (I := EventsKept) ?_ fun s s' l hI hok hn => clientNext_kept hI hok hn).noLateTimeout
  rintro s ⟨⟨hpend, -, -⟩, hcall, hret⟩
  refine ⟨?_, fun call hc => ?_, fun e he => ?_⟩
  · rw [hpend]
    exact List.Pairwise.nil
  · rw [hcall] at hc
    cases hc
  · rw [hret] at he
    cases he

/-! ## Runs -/

def EALREADY : Int := 114

def inProgress (_ : Int) : Bytes := text "Operation already in progress"

/-- A client before its first call, with a timeout of ten milliseconds. -/
def idleClient : TcpClient Nat where
  peerAddr := text "127.0.0.1:39999"
  maxTimeout := 10
  fd := 5
  connFd := 5
  timer := { timer := { events := fun _ => { arriveTime := 0, interval := 0 } }, now := 0 }

theorem idleClient_start : ClientStart idleClient := ⟨⟨rfl, rfl, rfl⟩, rfl, rfl⟩

/-- The timeout fires while the call waits for the reply; the call returns `ERROR_RPC_CALL_TIMEOUT`. -/
def silentPeer : List (ClientStep Nat) :=
  [.call 1 0, .connectLoop, .connectReturns 0 0 5, .connectEnded 0, .outputReturns, .sent 5, .replyLoop false,
    .timer (.onTimer 10 [] 10), .timer .startTask, .inputReturns (.overTime (TcpBuffer.new 128)), .received 6]

theorem no_late_timeout_silent : ∃ s, s.returned = [(1, ERROR_RPC_CALL_TIMEOUT)] ∧ NoLateTimeout s := by
  obtain ⟨s, hs, hret⟩ : ∃ s, runLabels (clientNext inProgress) idleClient silentPeer = some s ∧
      s.returned = [(1, ERROR_RPC_CALL_TIMEOUT)] := ⟨_, rfl, rfl⟩
  have hfit : RunOk (clientNext inProgress) ExitsFit idleClient silentPeer := by decide
  exact ⟨s, hret, no_late_timeout ((Reachable.start idleClient_start).of_runOk hfit hs)⟩

/-- The first call runs out of time while it connects, and returns `ERROR_FAILED_CONNECT`. The second call
connects, finds the flag of the connection, and returns with its own event pending. -/
def flagLeft : List (ClientStep Nat) :=
  [.call 1 0, .connectLoop, .timer (.onTimer 10 [] 10), .timer .startTask, .connectReturns (-1) EALREADY 5,
    .connectLoop, .connectEnded EALREADY,
    .call 2 10, .connectLoop, .connectReturns 0 0 5, .connectEnded 0, .outputReturns, .sent 5]

theorem timeout_outlives_call : ∃ s : TcpClient Nat,
    Reachable (clientNext inProgress) ClientStart anyStep s ∧ ¬NoLateTimeout s := by
  obtain ⟨s, hs, hpend, hret⟩ : ∃ s, runLabels (clientNext inProgress) idleClient flagLeft = some s ∧
      s.timer.timer.pendingEvents = [(20, 2)] ∧
      s.returned = [(1, ERROR_FAILED_CONNECT), (2, ERROR_RPC_CALL_TIMEOUT)] := ⟨_, rfl, rfl, rfl⟩
  refine ⟨s, (Reachable.start idleClient_start).of_run hs, fun h => ?_⟩
  have hnot := (h 2 (by rw [hret]; decide)).1
  rw [hpend] at hnot
  exact hnot (by decide)

end Tirpc
