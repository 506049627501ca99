import Tirpc.Tcp.Clients

/-!
# Descriptors that are used again

A connection is destroyed when its descriptor comes back from `accept`, or behind `SetState(Closed)`. The first may be
while its IO thread is still in `ClearClient`.
-/

namespace Tirpc

open Lib

variable {size : Int} {s s' s₁ : ServerClients} {l l' : ClosingConnection} {c : ServerConnection} {k : Nat} {fd : Int}

/-! ## One connection -/

/-- The IO thread is behind `close`, and then behind `SetState(Closed)`. -/
structure LifeKept (l : ClosingConnection) : Prop where
  closed : .close ∈ l.calls ↔ l.io = .closed ∨ l.io = .yielded
  state : l.state = .closed → l.io = .yielded

/-- What a step of `ShutdownConnection` or of the IO thread leaves. -/
structure LifeStep (l l' : ClosingConnection) : Prop where
  kept : LifeKept l'
  deleted : l'.deleted = l.deleted
  main : l'.main ≠ .idle → l.main ≠ .idle ∨ l.deleted = false
  closed : .close ∈ l.calls → .close ∈ l'.calls
  yielded : l.io = .yielded → l'.io = .yielded

theorem LifeKept.main {step : ClosingStep} (h : LifeKept l) (hstep : step ≠ .clearClientTimer)
    (hn : l.mainNext step = some l') : LifeStep l l' := by
  cases step with
  | shutdownConnection =>
      obtain ⟨⟨-, halive⟩, hn⟩ := Option.ite_none_right_eq_some.mp hn
      split at hn
      all_goals
        cases hn
        exact ⟨⟨h.closed, h.state⟩, rfl, fun _ => .inr halive, id, id⟩
  | setHalfClosing =>
      obtain ⟨hmain, hn⟩ := Option.ite_none_right_eq_some.mp hn
      cases hn
      exact ⟨⟨h.closed, nofun⟩, rfl, fun _ => .inl (by rw [hmain]; nofun), id, id⟩
  | shutdown =>
      obtain ⟨-, hn⟩ := Option.ite_none_right_eq_some.mp hn
      cases hn
      have hcalls : .close ∈ l.calls ++ [.shutdown] ↔ .close ∈ l.calls := by simp
      exact ⟨⟨hcalls.trans h.closed, h.state⟩, rfl, fun hmain => absurd rfl hmain, hcalls.mpr, id⟩
  | clearClientTimer => exact absurd rfl hstep
  | _ => cases hn

theorem LifeKept.io {step : ClosingStep} (h : LifeKept l) (hn : l.ioNext step = some l') : LifeStep l l' := by
  -- in front of `close`
  have hbefore {place : InputPlace} (hio : l.io ≠ .closed ∧ l.io ≠ .yielded)
      (hplace : place ≠ .closed ∧ place ≠ .yielded) : LifeStep l { l with io := place } := by
    refine ⟨⟨h.closed.trans ?_, fun hs => absurd (h.state hs) hio.2⟩, rfl, .inl, id,
      fun hy => absurd hy hio.2⟩
    exact iff_of_false (not_or.mpr hio) (not_or.mpr hplace)
  cases step with
  | input =>
      obtain ⟨⟨hio, -⟩, hn⟩ := Option.ite_none_right_eq_some.mp hn
      split at hn
      · cases hn
        exact ⟨h, rfl, .inl, id, id⟩
      · cases hn
        exact hbefore (by rw [hio]; decide) (by decide)
  | received rt =>
      obtain ⟨hio, hn⟩ := Option.ite_none_right_eq_some.mp hn
      cases hn
      exact hbefore (by rw [hio]; decide) (by split <;> decide)
  | clearClient =>
      obtain ⟨hio, hn⟩ := Option.ite_none_right_eq_some.mp hn
      cases hn
      have hopen : l.state ≠ .closed := fun hs => by
        cases hio.symm.trans (h.state hs)
      rw [if_neg hopen]
      exact hbefore (by rw [hio]; decide) (by decide)
  | close =>
      obtain ⟨hio, hn⟩ := Option.ite_none_right_eq_some.mp hn
      cases hn
      have hmem : DescriptorCall.close ∈ l.calls ++ [.close] := List.mem_append_right _ (List.mem_singleton_self _)
      refine ⟨⟨iff_of_true hmem (.inl rfl), fun hs => ?_⟩, rfl, .inl, fun _ => hmem, fun hy => ?_⟩
      · cases hio.symm.trans (h.state hs)
      · cases hio.symm.trans hy
  | setClosed =>
      obtain ⟨hio, hn⟩ := Option.ite_none_right_eq_some.mp hn
      cases hn
      exact ⟨⟨h.closed.trans (iff_of_true (.inl hio) (.inr rfl)), fun _ => rfl⟩, rfl, .inl, id, fun _ => rfl⟩
  | _ => cases hn

theorem LifeKept.step {step : ClosingStep} (h : LifeKept l) (hstep : step ≠ .clearClientTimer)
    (hn : closingNext l step = some l') : LifeStep l l' := by
  cases step with
  | shutdownConnection | setHalfClosing | shutdown | clearClientTimer => exact h.main hstep hn
  | input | received rt | clearClient | close | setClosed =>
      simp only [closingNext] at hn
      exact h.io hn

/-! ## The table -/

section Lists

variable {α : Type} {xs : List α} {x v : α} {f : α → α}

theorem getElem?_concat_cases (h : (xs ++ [x])[k]? = some v) :
    xs[k]? = some v ∧ k < xs.length ∨ k = xs.length ∧ v = x := by
  rcases Nat.lt_or_ge k xs.length with hlt | hge
  · rw [List.getElem?_append_left hlt] at h
    exact .inl ⟨h, hlt⟩
  · rw [List.getElem?_append_right hge] at h
    obtain ⟨hlt, heq⟩ := List.getElem?_eq_some_iff.mp h
    rw [List.getElem_singleton] at heq
    rw [List.length_singleton] at hlt
    exact .inr ⟨by omega, heq.symm⟩

theorem mem_modify_cases (h : v ∈ xs.modify k f) : v ∈ xs ∨ ∃ x, xs[k]? = some x ∧ v = f x := by
  obtain ⟨j, hj⟩ := List.mem_iff_getElem?.mp h
  rw [List.getElem?_modify] at hj
  obtain ⟨x, hx, heq⟩ := Option.map_eq_some_iff.mp hj
  by_cases hkj : k = j
  · rw [if_pos hkj] at heq
    exact .inr ⟨x, hkj ▸ hx, heq.symm⟩
  · rw [if_neg hkj] at heq
    exact .inl (List.mem_of_getElem? (heq ▸ hx))

end Lists

/-- A connection is destroyed behind its `close`, when the main thread is not in its `ShutdownConnection`. -/
structure ServedKept (c : ServerConnection) : Prop where
  life : LifeKept c.life
  main : c.life.main ≠ .idle → c.life.deleted = false
  deleted : c.life.deleted = true → .close ∈ c.life.calls

structure ClientsKept (size : Int) (s : ServerClients) : Prop where
  size_eq : s.size = size
  index : s.conns = [] ∧ s.index = -1 ∨ ∃ n : Nat, s.conns.length = n + 1 ∧ s.index = n % size + 1
  conns : ∀ (k : Nat) c, s.conns[k]? = some c → ServedKept c ∧ c.ioThread = k % size
  alive : ∀ (k : Nat) c, s.conns[k]? = some c → (c.life.deleted = false ↔ s.clients c.fd = some (some k))
  clients : ∀ fd k, s.clients fd = some (some k) → ∃ c, s.conns[k]? = some c ∧ c.fd = fd

theorem closed_of_not_open (hfd : ¬s.IsOpen fd) (hc : s.conns[k]? = some c) (heq : c.fd = fd) :
    .close ∈ c.life.calls := by
  by_contra hnot
  exact hfd ⟨c, List.mem_of_getElem? hc, heq, hnot⟩

theorem connection_cases {step : ClosingStep} (hn : serverClientsNext s (.connection k step) = some s') :
    ∃ c l, s.conns[k]? = some c ∧ (step ≠ .clearClientTimer ∧ closingNext c.life step = some l) ∧
      s' = s.setLife k l := by
  have hstep : step ≠ .clearClientTimer := by
    rintro rfl
    cases hn
  simp only [serverClientsNext] at hn
  obtain ⟨-, hn⟩ := Option.ite_none_right_eq_some.mp hn
  obtain ⟨c, hc, hn⟩ := Option.bind_eq_some_iff.mp hn
  obtain ⟨l, hl, rfl⟩ := Option.map_eq_some_iff.mp hn
  exact ⟨c, l, hc, ⟨hstep, hl⟩, rfl⟩

namespace ClientsKept

theorem start (h : ServerClientsStart size s) : ClientsKept size s := by
  have hnone {k : Nat} {c : ServerConnection} (hc : s.conns[k]? = some c) : False := by
    rw [h, List.getElem?_nil] at hc
    cases hc
  refine ⟨congrArg ServerClients.size h, .inl ⟨congrArg ServerClients.conns h, congrArg ServerClients.index h⟩,
    fun k c hc => (hnone hc).elim, fun k c hc => (hnone hc).elim, fun fd k hfd => ?_⟩
  rw [h] at hfd
  cases hfd

/-- The connections go on, each at its place. -/
theorem change (h : ClientsKept size s) {clients : Int → Option (Option Nat)} {conns : List ServerConnection}
    {life : Nat → ServerConnection → ClosingConnection}
    (hconns : ∀ k : Nat, conns[k]? = s.conns[k]?.map fun c => { c with life := life k c })
    (hkept : ∀ (k : Nat) c, s.conns[k]? = some c → ServedKept { c with life := life k c } ∧
      ((life k c).deleted = false ↔ clients c.fd = some (some k)))
    (hclients : ∀ fd k, clients fd = some (some k) → s.clients fd = some (some k)) :
    ClientsKept size { s with clients := clients, conns := conns } := by
  have hlength : conns.length = s.conns.length := by
    have hmapIdx : conns = s.conns.mapIdx fun k c => { c with life := life k c } :=
      List.ext_getElem? fun k => by rw [hconns k, List.getElem?_mapIdx]
    rw [hmapIdx, List.length_mapIdx]
  have hof {k : Nat} {c' : ServerConnection} (hc' : conns[k]? = some c') :
      ∃ c, s.conns[k]? = some c ∧ c' = { c with life := life k c } := by
    obtain ⟨c, hc, rfl⟩ := Option.map_eq_some_iff.mp ((hconns k).symm.trans hc')
    exact ⟨c, hc, rfl⟩
  refine ⟨h.size_eq, ?_, fun k c' hc' => ?_, fun k c' hc' => ?_, fun fd k hfd => ?_⟩
  · show conns = [] ∧ s.index = -1 ∨ ∃ n : Nat, conns.length = n + 1 ∧ s.index = n % size + 1
    rw [hlength, ← List.length_eq_zero_iff, hlength, List.length_eq_zero_iff]
    exact h.index
  · obtain ⟨c, hc, rfl⟩ := hof hc'
    exact ⟨(hkept k c hc).1, (h.conns k c hc).2⟩
  · obtain ⟨c, hc, rfl⟩ := hof hc'
    exact (hkept k c hc).2
  · obtain ⟨c, hc, hfd'⟩ := h.clients fd k (hclients fd k hfd)
    exact ⟨_, (hconns k).trans (congrArg _ hc), hfd'⟩

/-- The pointer of the table to a closed connection is reset. -/
theorem reset (h : ClientsKept size s) (hidle : s.MainIdle) (hfd : ¬s.IsOpen fd) (hk : s.clients fd = some (some k)) :
    ClientsKept size { s.reset k with clients := Function.update s.clients fd (some none) } := by
  obtain ⟨c₀, hc₀, hfd₀⟩ := h.clients fd k hk
  let life (j : Nat) (c : ServerConnection) : ClosingConnection :=
    if k = j then { c.life with deleted := true } else c.life
  have hconns : ∀ j : Nat, (s.reset k).conns[j]? = s.conns[j]?.map fun c => { c with life := life j c } := by
    intro j
    rw [ServerClients.reset, List.getElem?_modify]
    by_cases hkj : k = j <;> simp [life, hkj]
  refine h.change hconns (fun j c hc => ?_) fun fd' j hj => ?_
  · obtain ⟨hkept, -⟩ := h.conns j c hc
    by_cases hkj : k = j
    · subst hkj
      obtain rfl := Option.some.inj (hc₀.symm.trans hc)
      have hclosed := closed_of_not_open hfd hc hfd₀
      simp only [life, if_true, hfd₀, Function.update_self]
      refine ⟨⟨⟨hkept.life.closed, hkept.life.state⟩, fun hmain => ?_, fun _ => hclosed⟩, nofun, nofun⟩
      exact absurd (hidle c₀ (List.mem_of_getElem? hc)) hmain
    · simp only [life, if_neg hkj]
      refine ⟨hkept, (h.alive j c hc).trans ?_⟩
      by_cases hcfd : c.fd = fd
      · rw [hcfd, hk, Function.update_self]
        exact iff_of_false (fun heq => hkj (Option.some.inj (Option.some.inj heq))) nofun
      · rw [Function.update_of_ne hcfd]
  · by_cases hfd' : fd' = fd
    · rw [hfd', Function.update_self] at hj
      cases hj
    · rwa [Function.update_of_ne hfd'] at hj

/-- A new connection, whose descriptor leads to no other. -/
theorem concat (h : ClientsKept size s) (fd : Int) (hfree : ∀ k, s.clients fd ≠ some (some k)) :
    ClientsKept size
      { s with
        index := s.conns.length % size + 1
        clients := Function.update s.clients fd (some (some s.conns.length))
        conns := s.conns ++ [{ fd := fd, ioThread := s.conns.length % size }] } := by
  refine ⟨h.size_eq, .inr ⟨s.conns.length, List.length_append, rfl⟩, fun k c hc => ?_, fun k c hc => ?_,
    fun fd' k hk => ?_⟩
  · rcases getElem?_concat_cases hc with ⟨hc, -⟩ | ⟨rfl, rfl⟩
    · exact h.conns k c hc
    · exact ⟨⟨⟨iff_of_false nofun nofun, nofun⟩, fun hmain => absurd rfl hmain, nofun⟩, rfl⟩
  · rcases getElem?_concat_cases hc with ⟨hc, hlt⟩ | ⟨rfl, rfl⟩
    · refine (h.alive k c hc).trans ?_
      dsimp only
      by_cases hcfd : c.fd = fd
      · rw [hcfd, Function.update_self]
        refine iff_of_false (hfree k) fun heq => ?_
        have hlength := Option.some.inj (Option.some.inj heq)
        omega
      · rw [Function.update_of_ne hcfd]
    · exact iff_of_true rfl (Function.update_self _ _ _)
  · dsimp only at hk
    by_cases hfd' : fd' = fd
    · subst hfd'
      rw [Function.update_self] at hk
      obtain rfl := Option.some.inj (Option.some.inj hk)
      exact ⟨_, List.getElem?_concat_length, rfl⟩
    · rw [Function.update_of_ne hfd'] at hk
      obtain ⟨c, hc, hcfd⟩ := h.clients fd' k hk
      have hlt := (List.getElem?_eq_some_iff.mp hc).1
      exact ⟨c, (List.getElem?_append_left hlt).trans hc, hcfd⟩

/-- The threads come one after the other, and then the first one again. -/
theorem getIoThread (h : ClientsKept size s) (hsize : 0 < size) :
    s.getIoThread = some (s.conns.length % size, { s with index := s.conns.length % size + 1 }) := by
  have hindex : (if s.index = s.size ∨ s.index = -1 then 0 else s.index) = s.conns.length % size := by
    rw [h.size_eq]
    rcases h.index with ⟨hnil, hindex⟩ | ⟨n, hlength, hindex⟩
    · rw [if_pos (.inr hindex), hnil]
      simp
    · have hnonneg := Int.emod_nonneg n (Int.ne_of_gt hsize)
      have hlt := Int.emod_lt_of_pos n hsize
      have hmod : ((n + 1 : Nat) : Int) % size = (n % size + 1) % size := by
        rw [Int.emod_add_emod]
        rfl
      rw [hlength, hmod, hindex]
      by_cases hlast : (n : Int) % size + 1 = size
      · rw [if_pos (.inl hlast), hlast, Int.emod_self]
      · have hnext : ((n : Int) % size + 1) % size = n % size + 1 := Int.emod_eq_of_lt (by omega) (by omega)
        rw [if_neg (by omega), hnext]
  have hnonneg := Int.emod_nonneg s.conns.length (Int.ne_of_gt hsize)
  have hlt := Int.emod_lt_of_pos s.conns.length hsize
  rw [ServerClients.getIoThread, hindex, h.size_eq, if_pos ⟨hnonneg, hlt⟩]

/-- The connection that had the descriptor is destroyed, and the new one takes its place. -/
theorem addClient (h : ClientsKept size s) (hidle : s.MainIdle) (hfd : ¬s.IsOpen fd) :
    ClientsKept size ({ s with index := s.conns.length % size + 1 }.addClient (s.conns.length % size) fd) := by
  by_cases hk : ∃ k, s.clients fd = some (some k)
  · obtain ⟨k, hk⟩ := hk
    have hnew := (h.reset hidle hfd hk).concat fd fun j heq => by
      dsimp only at heq
      rw [Function.update_self] at heq
      cases heq
    simp only [ServerClients.reset, List.length_modify, Function.update_idem] at hnew
    simp only [ServerClients.addClient, hk, ServerClients.reset, List.length_modify]
    exact hnew
  · have hnew := h.concat fd fun k heq => hk ⟨k, heq⟩
    unfold ServerClients.addClient
    dsimp only
    split
    case h_1 k heq => exact absurd ⟨k, heq⟩ hk
    case h_2 => exact hnew

/-- The timer resets the pointers to the connections that are closed. -/
theorem clearClientTimerFunc (h : ClientsKept size s) (hidle : s.MainIdle) : ClientsKept size s.clearClientTimerFunc := by
  let life (j : Nat) (c : ServerConnection) : ClosingConnection :=
    if s.clients c.fd = some (some j) ∧ s.isClosed j then { c.life with deleted := true } else c.life
  have hclosed {j : Nat} {c : ServerConnection} (hc : s.conns[j]? = some c) :
      s.isClosed j = true ↔ c.life.state = .closed := by simp [ServerClients.isClosed, hc]
  have hconns : ∀ j : Nat,
      s.clearClientTimerFunc.conns[j]? = s.conns[j]?.map fun c => { c with life := life j c } := by
    intro j
    rw [ServerClients.clearClientTimerFunc, List.getElem?_mapIdx]
    congr 1
    funext c
    by_cases hc : s.clients c.fd = some (some j) ∧ s.isClosed j <;> simp [life, hc]
  refine h.change hconns (fun j c hc => ?_) fun fd j hj => ?_
  · obtain ⟨hkept, -⟩ := h.conns j c hc
    by_cases hreset : s.clients c.fd = some (some j) ∧ s.isClosed j
    · have hio := hkept.life.state ((hclosed hc).mp hreset.2)
      simp only [life, if_pos hreset]
      have hcalls := hkept.life.closed.mpr (.inr hio)
      refine ⟨⟨⟨hkept.life.closed, hkept.life.state⟩, fun hmain => ?_, fun _ => hcalls⟩, nofun, fun heq => ?_⟩
      · exact absurd (hidle c (List.mem_of_getElem? hc)) hmain
      · simp [hreset.1, hreset.2] at heq
    · simp only [life, if_neg hreset]
      refine ⟨hkept, (h.alive j c hc).trans ⟨fun heq => ?_, fun heq => ?_⟩⟩
      · have hopen : s.isClosed j = false := by simpa [heq] using hreset
        simp [heq, hopen]
      · obtain ⟨client, hclient, hfilter⟩ := Option.map_eq_some_iff.mp heq
        rw [hclient, (Option.filter_eq_some_iff.mp hfilter).1]
  · obtain ⟨client, hclient, hfilter⟩ := Option.map_eq_some_iff.mp hj
    rw [hclient, (Option.filter_eq_some_iff.mp hfilter).1]

/-- A step of one connection. -/
theorem setLife (h : ClientsKept size s) (hc : s.conns[k]? = some c) (hl : LifeStep c.life l) :
    ClientsKept size (s.setLife k l) := by
  let life (j : Nat) (c : ServerConnection) : ClosingConnection := if k = j then l else c.life
  have hconns : ∀ j : Nat, (s.setLife k l).conns[j]? = s.conns[j]?.map fun c => { c with life := life j c } := by
    intro j
    rw [ServerClients.setLife, List.getElem?_modify]
    by_cases hkj : k = j <;> simp [life, hkj]
  refine h.change hconns (fun j c' hc' => ?_) fun _ _ heq => heq
  · obtain ⟨hkept, -⟩ := h.conns j c' hc'
    by_cases hkj : k = j
    · subst hkj
      obtain rfl := Option.some.inj (hc.symm.trans hc')
      simp only [life, if_true]
      refine ⟨⟨hl.kept, fun hmain => ?_, fun hdeleted => hl.closed (hkept.deleted (hl.deleted ▸ hdeleted))⟩, ?_⟩
      · exact hl.deleted.trans ((hl.main hmain).elim hkept.main id)
      · rw [hl.deleted]
        exact h.alive k c hc
    · simp only [life, if_neg hkj]
      exact ⟨hkept, h.alive j c' hc'⟩

theorem step {step : ServerClientsStep} (h : ClientsKept size s) (hsize : 0 < size)
    (hn : serverClientsNext s step = some s') : ClientsKept size s' := by
  cases step with
  | accept fd =>
      obtain ⟨⟨hidle, hfd⟩, hn⟩ := Option.ite_none_right_eq_some.mp hn
      rw [h.getIoThread hsize] at hn
      cases hn
      exact h.addClient hidle hfd
  | clearClientTimerFunc =>
      obtain ⟨hidle, hn⟩ := Option.ite_none_right_eq_some.mp hn
      cases hn
      exact h.clearClientTimerFunc hidle
  | connection k step =>
      obtain ⟨c, l, hc, hl, rfl⟩ := connection_cases hn
      exact h.setLife hc ((h.conns k c hc).1.life.step hl.1 hl.2)

theorem of_reachable {ok : ServerClients → ServerClientsStep → Prop} (hsize : 0 < size)
    (h : Reachable serverClientsNext (ServerClientsStart size) ok s) : ClientsKept size s :=
  h.invariant (fun _ => start) fun _ _ _ hI _ hn => hI.step hsize hn

end ClientsKept

/-- The first connection is closed by its peer, and its descriptor comes back. -/
def numberAgain : List ServerClientsStep :=
  [.accept 7, .accept 8, .connection 0 .input, .connection 0 (.received 0), .connection 0 .clearClient,
    .connection 0 .close, .connection 0 .setClosed, .accept 7]

theorem emptyTable_start : ServerClientsStart 2 { size := 2 } := rfl

/-- The IO thread of a destroyed connection is out of `ClearClient`. -/
def NoneInUse (s : ServerClients) : Prop := ∀ c ∈ s.conns, c.life.deleted = true → c.life.io = .yielded

/-- `accept` does not return a descriptor whose connection stands between `close` and `SetState(Closed)`. -/
def NotTooEarly (s : ServerClients) : ServerClientsStep → Prop
  | .accept fd => ∀ c ∈ s.conns, c.fd = fd → c.life.io ≠ .closed
  | _ => True

instance (s : ServerClients) : Decidable (NoneInUse s) := inferInstanceAs (Decidable (∀ c ∈ s.conns, _ → _))

instance (s : ServerClients) : (l : ServerClientsStep) → Decidable (NotTooEarly s l)
  | .accept fd => inferInstanceAs (Decidable (∀ c ∈ s.conns, c.fd = fd → _))
  | .clearClientTimerFunc | .connection .. => inferInstanceAs (Decidable True)

def ServerConnection.destroyed (c : ServerConnection) : ServerConnection :=
  { c with life := { c.life with deleted := true } }

theorem mem_addClient {ioThread : Int} {c' : ServerConnection} (hc' : c' ∈ (s.addClient ioThread fd).conns) :
    c' ∈ s.conns ∨ c'.life.deleted = false ∨
      ∃ k c, s.clients fd = some (some k) ∧ s.conns[k]? = some c ∧ c' = c.destroyed := by
  unfold ServerClients.addClient at hc'
  dsimp only at hc'
  rcases List.mem_append.mp hc' with hc' | hc'
  · split at hc'
    case h_1 k hk =>
      rcases mem_modify_cases hc' with hold | ⟨c, hc, rfl⟩
      · exact .inl hold
      · exact .inr (.inr ⟨k, c, hk, hc, rfl⟩)
    case h_2 => exact .inl hc'
  · rw [List.mem_singleton.mp hc']
    exact .inr (.inl rfl)

theorem destroyed_mem_addClient {ioThread : Int} (hk : s.clients fd = some (some k)) (hc : s.conns[k]? = some c) :
    c.destroyed ∈ (s.addClient ioThread fd).conns := by
  simp only [ServerClients.addClient, hk, ServerClients.reset]
  refine List.mem_append_left _ (List.mem_of_getElem? (i := k) ?_)
  rw [List.getElem?_modify, hc]
  simp [ServerConnection.destroyed]

/-- Among the steps that can be made, those that leave no destroyed connection in use. -/
theorem noneInUse_step {step : ServerClientsStep} (h : ClientsKept size s) (hsize : 0 < size) (hnone : NoneInUse s)
    (hn : serverClientsNext s step = some s') : NotTooEarly s step ↔ NoneInUse s' := by
  cases step with
  | accept fd =>
      obtain ⟨⟨hidle, hfd⟩, hn⟩ := Option.ite_none_right_eq_some.mp hn
      rw [h.getIoThread hsize] at hn
      cases hn
      constructor
      · intro hok c' hc' hdeleted
        rcases mem_addClient hc' with hold | hnew | ⟨k, c, hk, hc, rfl⟩
        · exact hnone c' hold hdeleted
        · cases hdeleted.symm.trans hnew
        · have hcfd : c.fd = fd := by
            obtain ⟨c₀, hc₀, hfd₀⟩ := h.clients fd k hk
            obtain rfl := Option.some.inj (hc₀.symm.trans hc)
            exact hfd₀
          have hclosed := (h.conns k c hc).1.life.closed.mp (closed_of_not_open hfd hc hcfd)
          exact hclosed.resolve_left (hok c (List.mem_of_getElem? hc) hcfd)
      · intro hnone' c hmem hcfd hio
        obtain ⟨k, hc⟩ := List.mem_iff_getElem?.mp hmem
        have halive : c.life.deleted = false := by
          by_contra hdeleted
          cases hio.symm.trans (hnone c hmem (by simpa using hdeleted))
        have hk : s.clients fd = some (some k) := hcfd ▸ (h.alive k c hc).mp halive
        cases hio.symm.trans (hnone' c.destroyed (destroyed_mem_addClient hk hc) rfl)
  | clearClientTimerFunc =>
      obtain ⟨hidle, hn⟩ := Option.ite_none_right_eq_some.mp hn
      cases hn
      refine iff_of_true trivial fun c' hc' hdeleted => ?_
      obtain ⟨j, hj, rfl⟩ := List.mem_mapIdx.mp hc'
      have hc : s.conns[j]? = some s.conns[j] := List.getElem?_eq_getElem hj
      by_cases hreset : s.clients s.conns[j].fd = some (some j) ∧ s.isClosed j
      · rw [if_pos hreset]
        have hstate : s.conns[j].life.state = .closed := by simpa [ServerClients.isClosed, hc] using hreset.2
        exact (h.conns j _ hc).1.life.state hstate
      · rw [if_neg hreset] at hdeleted ⊢
        exact hnone _ (List.getElem_mem hj) hdeleted
  | connection k step =>
      obtain ⟨c, l, hc, hl, rfl⟩ := connection_cases hn
      have hstep := (h.conns k c hc).1.life.step hl.1 hl.2
      refine iff_of_true trivial fun c' hc' hdeleted => ?_
      rcases mem_modify_cases hc' with hold | ⟨c₀, hc₀, rfl⟩
      · exact hnone c' hold hdeleted
      · obtain rfl := Option.some.inj (hc.symm.trans hc₀)
        exact hstep.yielded (hnone c (List.mem_of_getElem? hc) (hstep.deleted ▸ hdeleted))

/-- For every run: a connection is never destroyed while its IO thread is still in `ClearClient` if and only if `accept`
never returns a descriptor whose connection stands between `close` and `SetState(Closed)`. -/
theorem none_in_use_iff {steps : List ServerClientsStep} (hsize : 0 < size) (hs : ServerClientsStart size s)
    (hrun : runLabels serverClientsNext s steps = some s') :
    RunOk serverClientsNext NotTooEarly s steps ↔
      RunOk serverClientsNext (fun s l => ∀ s' ∈ serverClientsNext s l, NoneInUse s') s steps := by
  have hkept : ClientsKept size s := .start hs
  have hnone : NoneInUse s := by
    rw [hs]
    exact fun c hc => absurd hc List.not_mem_nil
  clear hs
  induction steps generalizing s with
  | nil => exact Iff.rfl
  | cons step steps ih =>
      obtain ⟨s₁, hs₁, hrest⟩ := Option.bind_eq_some_iff.mp hrun
      have hkept₁ := hkept.step hsize hs₁
      have hiff := noneInUse_step hkept hsize hnone hs₁
      have hnext {P : ServerClients → Prop} : (∀ s' ∈ serverClientsNext s step, P s') ↔ P s₁ := by
        rw [hs₁]
        exact ⟨fun h => h s₁ rfl, fun h s' hs' => Option.some.inj hs' ▸ h⟩
      simp only [RunOk, hnext, ← hiff]
      exact and_congr_right fun hok => ih hrest hkept₁ (hiff.mp hok)

/-- The descriptor comes back before the IO thread has set the state. -/
def numberTooEarly : List ServerClientsStep :=
  [.accept 7, .connection 0 .input, .connection 0 (.received 0), .connection 0 .clearClient, .connection 0 .close,
    .accept 7]

theorem none_in_use_again :
    RunOk serverClientsNext (fun s l => ∀ s' ∈ serverClientsNext s l, NoneInUse s') { size := 2 } numberAgain ∧
    ¬RunOk serverClientsNext (fun s l => ∀ s' ∈ serverClientsNext s l, NoneInUse s') { size := 2 } numberTooEarly := by
  obtain ⟨s, hs⟩ : ∃ s, runLabels serverClientsNext { size := 2 } numberAgain = some s := ⟨_, rfl⟩
  obtain ⟨s', hs'⟩ : ∃ s, runLabels serverClientsNext { size := 2 } numberTooEarly = some s := ⟨_, rfl⟩
  refine ⟨(none_in_use_iff (by decide) rfl hs).mp (by decide), fun hearly => ?_⟩
  exact absurd ((none_in_use_iff (by decide) rfl hs').mpr hearly) (by decide)

end Tirpc
