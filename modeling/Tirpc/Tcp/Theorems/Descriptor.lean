import Tirpc.Tcp.Client

/-!
# Does a call send where it has connected?

The connection has the descriptor of the socket that the client was made with. `ResetFd` gives the client another
socket, and the connection is not told.
-/

namespace Tirpc

open Lib

variable {E : Type}

/-- A client, the descriptor on which `connect` has last succeeded, and for each `Output` and `Input` that
descriptor with the one that the connection has used. -/
structure DescriptorRun (E : Type) where
  client : TcpClient E
  connected : Option Int := none
  io : List (Option Int × Int) := []

def descriptorNext [DecidableEq E] (strerror : Int → Bytes) (s : DescriptorRun E) (l : ClientStep E) :
    Option (DescriptorRun E) :=
  (clientNext strerror s.client l).map fun client =>
    match l with
    | .connectReturns rt _ _ =>
        { s with client := client, connected := if rt = 0 then some s.client.fd else s.connected }
    | .outputReturns | .inputReturns _ =>
        { s with client := client, io := s.io ++ [(s.connected, s.client.connFd)] }
    | _ => { s with client := client }

/-- A client as its constructor makes it. -/
def DescriptorStart (s : DescriptorRun E) : Prop :=
  ClientStart s.client ∧ s.client.state = .notConnected ∧ s.client.connFd = s.client.fd ∧ s.connected = none ∧ s.io = []

def SameDescriptor (s : DescriptorRun E) : Prop := ∀ p ∈ s.io, p.1 = some p.2

/-- When `connect` succeeds, `socket` has last returned the number that the connection was made with. -/
def ConnectsOwn (s : DescriptorRun E) : ClientStep E → Prop
  | .connectReturns rt _ _ => rt = 0 → s.client.fd = s.client.connFd
  | _ => True

instance (s : DescriptorRun E) : (l : ClientStep E) → Decidable (ConnectsOwn s l)
  | .connectReturns .. => inferInstanceAs (Decidable (_ → _))
  | .call .. | .connectLoop | .connectEnded _ | .outputReturns | .sent _ | .replyLoop _ | .inputReturns _
  | .received _ | .timer _ => inferInstanceAs (Decidable True)

/-! ## What the steps do to the connection -/

/-- Behind the loop that connects and its check. -/
def CallPlace.BehindConnect : CallPlace → Prop
  | .connectLoop | .connecting | .connectEnded => False
  | .sending | .sent | .replyLoop | .receiving | .received => True

variable {s s' : TcpClient E} {call : ClientCall E} {strerror : Int → Bytes} {l : ClientStep E}

/-- The descriptor stays, and only a connection that is connected, or becomes so now, is used. -/
structure ConnectionKept (s s' : TcpClient E) (connects : Prop) : Prop where
  connFd : s'.connFd = s.connFd
  state : s'.state = .connected → s.state = .connected ∨ connects
  place : ∀ call' ∈ s'.call, call'.place.BehindConnect →
    s.state = .connected ∨ ∃ call ∈ s.call, call.place.BehindConnect

def Connects : ClientStep E → Prop
  | .connectReturns rt _ _ => rt = 0
  | _ => False

theorem ConnectionKept.goto {u : TcpClient E} {place : CallPlace} {connects : Prop} (hc : s.call = some call)
    (hfd : u.connFd = s.connFd) (hstate : u.state = .connected → s.state = .connected ∨ connects)
    (hplace : place.BehindConnect → s.state = .connected ∨ call.place.BehindConnect) :
    ConnectionKept s (u.goto call place) connects := by
  refine ⟨hfd, hstate, fun call' hcall' hbehind => ?_⟩
  cases hcall'
  exact (hplace hbehind).imp id fun h => ⟨call, hc, h⟩

theorem ConnectionKept.trans {u : TcpClient E} {connects : Prop} (h : ConnectionKept s u False)
    (h' : ConnectionKept u s' connects) : ConnectionKept s s' connects where
  connFd := h'.connFd.trans h.connFd
  state hs := (h'.state hs).imp (fun hu => (h.state hu).resolve_right id) id
  place call' hc hbehind := by
    rcases h'.place call' hc hbehind with hu | ⟨call, hcall, hcb⟩
    · exact .inl ((h.state hu).resolve_right id)
    · exact h.place call hcall hcb

theorem ConnectionKept.leave {u : TcpClient E} {code : Int} {connects : Prop} (hfd : u.connFd = s.connFd)
    (hstate : u.state = s.state) : ConnectionKept s (u.leave call code) connects :=
  ⟨hfd, fun h => .inl (hstate ▸ h), nofun⟩

theorem ConnectionKept.errDeal {isTimeout : Bool} {newFd : Int} {connects : Prop} :
    ConnectionKept s (s.errDeal call isTimeout newFd) connects := by
  simp only [TcpClient.errDeal]
  split
  · exact .leave rfl rfl
  · exact .leave rfl rfl

/-- Where the connection is connected, or about to be used, its descriptor is the one that has been connected. -/
structure Agrees (s : DescriptorRun E) : Prop where
  io : SameDescriptor s
  state : s.client.state = .connected → s.connected = some s.client.connFd
  place : ∀ call ∈ s.client.call, call.place.BehindConnect → s.connected = some s.client.connFd

theorem Agrees.kept {s : DescriptorRun E} {client : TcpClient E} {io : List (Option Int × Int)} (h : Agrees s)
    (hk : ConnectionKept s.client client False) (hio : ∀ p ∈ io, p.1 = some p.2) :
    Agrees { client := client, connected := s.connected, io := io } := by
  have hown : s.client.state = .connected → s.connected = some client.connFd := by
    intro hs
    rw [hk.connFd, h.state hs]
  refine ⟨hio, fun hs => hown ((hk.state hs).resolve_right id), fun call hc hbehind => ?_⟩
  rcases hk.place call hc hbehind with hs | ⟨call', hc', hbehind'⟩
  · exact hown hs
  · rw [hk.connFd]
    exact h.place call' hc' hbehind'

variable [DecidableEq E]

theorem callStep_connection (hc : s.call = some call) (hn : s.callStep strerror call l = some s') :
    ConnectionKept s s' (Connects l) := by
  cases l with
  | call event now => cases hn
  | timer step => cases hn
  | connectLoop =>
      obtain ⟨-, hn⟩ := Option.ite_none_right_eq_some.mp hn
      split at hn
      · cases hn
        exact .goto hc rfl .inl nofun
      · split at hn
        · cases hn
          exact .goto hc rfl .inl nofun
        · cases hn
          exact .goto hc rfl .inl nofun
  | connectReturns rt errno newFd =>
      obtain ⟨-, hn⟩ := Option.ite_none_right_eq_some.mp hn
      split at hn
      · rename_i hrt
        cases hn
        exact .goto hc rfl (fun _ => .inr hrt) nofun
      · simp only at hn
        split at hn
        · cases hn
          exact .leave rfl rfl
        · split at hn
          · cases hn
            exact .leave rfl rfl
          · cases hn
            exact .goto hc rfl .inl nofun
  | connectEnded errno =>
      obtain ⟨-, hn⟩ := Option.ite_none_right_eq_some.mp hn
      split at hn
      · cases hn
        exact .leave rfl rfl
      · rename_i hstate
        have hconnected : s.state = .connected := not_not.mp hstate
        cases hn
        exact .goto hc rfl (fun _ => .inl hconnected) fun _ => .inl hconnected
  | outputReturns =>
      obtain ⟨hplace, hn⟩ := Option.ite_none_right_eq_some.mp hn
      cases hn
      exact .goto hc rfl .inl fun _ => .inr (by rw [hplace]; trivial)
  | sent newFd =>
      obtain ⟨hplace, hn⟩ := Option.ite_none_right_eq_some.mp hn
      split at hn
      · cases hn
        exact .errDeal
      · cases hn
        exact .goto hc rfl .inl fun _ => .inr (by rw [hplace]; trivial)
  | replyLoop found =>
      obtain ⟨hplace, hn⟩ := Option.ite_none_right_eq_some.mp hn
      split at hn
      · cases hn
        exact .leave rfl rfl
      · cases hn
        exact .goto hc rfl .inl fun _ => .inr (by rw [hplace]; trivial)
  | inputReturns result =>
      obtain ⟨hplace, hn⟩ := Option.ite_none_right_eq_some.mp hn
      split at hn
      · cases hn
        exact .goto hc rfl nofun fun _ => .inr (by rw [hplace]; trivial)
      · cases hn
        exact .goto hc rfl .inl fun _ => .inr (by rw [hplace]; trivial)
  | received newFd =>
      obtain ⟨hplace, hn⟩ := Option.ite_none_right_eq_some.mp hn
      split at hn
      · cases hn
        exact .errDeal
      · split at hn
        · cases hn
          exact .errDeal
        · cases hn
          exact .goto hc rfl .inl fun _ => .inr (by rw [hplace]; trivial)

/-- The callback of a timer sets flags. -/
theorem timerCb_connection {event : E} {connects : Prop} : ConnectionKept s (s.timerCb event) connects := by
  have hsame : ConnectionKept s s connects := ⟨rfl, .inl, fun call' hc hbehind => .inr ⟨call', hc, hbehind⟩⟩
  simp only [TcpClient.timerCb]
  split
  · rename_i call hc
    split
    · refine ⟨rfl, .inl, fun call' hc' hbehind => .inr ⟨call, hc, ?_⟩⟩
      cases hc'
      exact hbehind
    · split
      · exact ⟨rfl, .inl, hsame.place⟩
      · exact hsame
  · split
    · exact ⟨rfl, .inl, hsame.place⟩
    · exact hsame

theorem timerStep_connection {step : TimerStep E} (hn : s.timerStep step = some s') : ConnectionKept s s' False := by
  have htimer : ∀ {u : TcpClient E},
      ((timerNext s.timer step).map fun timer => { s with timer := timer }) = some u → ConnectionKept s u False := by
    intro u hu
    obtain ⟨timer, -, rfl⟩ := Option.map_eq_some_iff.mp hu
    exact ⟨rfl, .inl, fun call' hc hbehind => .inr ⟨call', hc, hbehind⟩⟩
  cases step with
  | add event now =>
      obtain ⟨-, hn⟩ := Option.ite_none_left_eq_some.mp hn
      exact htimer hn
  | del event =>
      obtain ⟨-, hn⟩ := Option.ite_none_left_eq_some.mp hn
      exact htimer hn
  | onTimer now resets last => exact htimer hn
  | elapse now => exact htimer hn
  | startTask =>
      simp only [TcpClient.timerStep] at hn
      split at hn
      · cases hn
      · obtain ⟨u, hu, rfl⟩ := Option.map_eq_some_iff.mp hn
        exact (htimer hu).trans timerCb_connection

theorem clientNext_connection (hn : clientNext strerror s l = some s') : ConnectionKept s s' (Connects l) := by
  cases hc : s.call with
  | none =>
      cases l with
      | timer step => exact timerStep_connection hn
      | call event now =>
          simp only [clientNext, hc] at hn
          obtain ⟨-, hn⟩ := Option.ite_none_right_eq_some.mp hn
          cases hn
          refine ⟨rfl, .inl, fun call' hcall' hbehind => ?_⟩
          cases hcall'
          cases hbehind
      | _ => simp [clientNext, hc] at hn
  | some call =>
      cases l with
      | timer step => exact timerStep_connection hn
      | call event now => simp [clientNext, hc] at hn
      | _ =>
          simp only [clientNext, hc] at hn
          exact callStep_connection hc hn

/-! ## Runs -/

/-- `Output` and `Input` are called behind the check of the connection. -/
theorem io_behind (hn : clientNext strerror s l = some s')
    (hio : l = .outputReturns ∨ ∃ result, l = .inputReturns result) :
    ∃ call ∈ s.call, call.place.BehindConnect := by
  cases hc : s.call with
  | none => rcases hio with rfl | ⟨result, rfl⟩ <;> simp [clientNext, hc] at hn
  | some call =>
      refine ⟨call, rfl, ?_⟩
      rcases hio with rfl | ⟨result, rfl⟩
      · simp only [clientNext, hc] at hn
        obtain ⟨hplace, -⟩ := Option.ite_none_right_eq_some.mp hn
        rw [hplace]
        trivial
      · simp only [clientNext, hc] at hn
        obtain ⟨hplace, -⟩ := Option.ite_none_right_eq_some.mp hn
        rw [hplace]
        trivial

theorem Agrees.concat {s : DescriptorRun E} (h : Agrees s) (hn : clientNext strerror s.client l = some s')
    (hl : l = .outputReturns ∨ ∃ result, l = .inputReturns result) :
    ∀ p ∈ s.io ++ [(s.connected, s.client.connFd)], p.1 = some p.2 := by
  obtain ⟨call, hc, hbehind⟩ := io_behind hn hl
  intro p hp
  rcases List.mem_append.mp hp with hp | hp
  · exact h.io p hp
  · rw [List.mem_singleton.mp hp]
    exact h.place call hc hbehind

theorem agrees_step {s s' : DescriptorRun E} (h : Agrees s) (hok : ConnectsOwn s l)
    (hn : descriptorNext strerror s l = some s') : Agrees s' := by
  obtain ⟨client, hclient, rfl⟩ := Option.map_eq_some_iff.mp hn
  have hkept := clientNext_connection hclient
  cases l with
  | connectReturns rt errno newFd =>
      by_cases hrt : rt = 0
      · have hown : some s.client.fd = some client.connFd := by rw [hkept.connFd, hok hrt]
        simp only [if_pos hrt]
        exact ⟨h.io, fun _ => hown, fun _ _ _ => hown⟩
      · simp only [if_neg hrt]
        exact h.kept ⟨hkept.connFd, fun hs => .inl ((hkept.state hs).resolve_right hrt), hkept.place⟩ h.io
  | outputReturns => exact h.kept hkept (h.concat hclient (.inl rfl))
  | inputReturns result => exact h.kept hkept (h.concat hclient (.inr ⟨result, rfl⟩))
  | call event now => exact h.kept hkept h.io
  | connectLoop => exact h.kept hkept h.io
  | connectEnded errno => exact h.kept hkept h.io
  | sent newFd => exact h.kept hkept h.io
  | replyLoop found => exact h.kept hkept h.io
  | received newFd => exact h.kept hkept h.io
  | timer step => exact h.kept hkept h.io

def noStrerror (_ : Int) : Bytes := []

/-- A client with socket 5. -/
def clientFive : DescriptorRun Nat where
  client :=
    { peerAddr := text "127.0.0.1:39999"
      maxTimeout := 10
      fd := 5
      connFd := 5
      timer := { timer := { events := fun _ => { arriveTime := 0, interval := 0 } }, now := 0 } }

theorem clientFive_start : DescriptorStart clientFive := ⟨⟨⟨rfl, rfl, rfl⟩, rfl, rfl⟩, rfl, rfl, rfl, rfl⟩

/-- `connect` fails with `EALREADY`, and then succeeds on the socket that `ResetFd` has made. -/
def secondAttempt (newFd : Int) : List (ClientStep Nat) :=
  [.call 1 0, .connectLoop, .connectReturns (-1) 114 newFd, .connectLoop, .connectReturns 0 0 0, .connectEnded 0,
    .outputReturns]

end Tirpc
