import Mathlib.Data.List.Perm.Subperm
import Tirpc.Rpc.History

/-!
# Which addresses a channel tries

Over all calls of a channel. Addresses are told apart by their texts, as by the loop that takes one out of the list.
-/

namespace Tirpc

open Lib

variable {A M : Type} {env : CallEnv A M} {toString : A → Bytes} {origin l l' l'' : List A}
  {log log' : List (Attempt A)}

/-- `l'` is `l` without one entry of this address. -/
def RemovesOne (toString : A → Bytes) (addr : A) (l l' : List A) : Prop :=
  ∃ before b after, toString b = toString addr ∧ l = before ++ b :: after ∧ l' = before ++ after

theorem eraseP_removesOne {addr : A} (h : addr ∈ l) :
    RemovesOne toString addr l (l.eraseP fun a => toString a = toString addr) := by
  obtain ⟨b, before, after, -, hb, hl, herase⟩ :=
    List.exists_of_eraseP (p := fun a => decide (toString a = toString addr)) h (decide_eq_true rfl)
  exact ⟨before, b, after, of_decide_eq_true hb, hl, herase⟩

theorem RemovesOne.countP {addr : A} (h : RemovesOne toString addr l l') (t : Bytes) :
    l.countP (fun a => toString a = t) = l'.countP (fun a => toString a = t) + if toString addr = t then 1 else 0 := by
  obtain ⟨before, b, after, hb, rfl, rfl⟩ := h
  simp only [List.countP_append, List.countP_cons, hb, decide_eq_true_eq]
  omega

/-! ## One attempt -/

/-- What an attempt does that finds the list `l`. -/
structure Follows (toString : A → Bytes) (origin l : List A) (a : Attempt A) : Prop where
  given : a.given = if l = [] then origin else l
  refilled : a.refilled = true ↔ l = []
  given_ne : a.given ≠ []
  chosen : a.addr ∈ a.given
  left : a.left = if a.Failed then a.given.eraseP (fun b => toString b = toString a.addr) else a.given

theorem Follows.removesOne {a : Attempt A} (h : Follows toString origin l a) (hf : a.Failed) :
    RemovesOne toString a.addr a.given a.left := by
  rw [h.left, if_pos hf]
  exact eraseP_removesOne h.chosen

theorem Follows.left_sublist {a : Attempt A} (h : Follows toString origin l a) : a.left.Sublist a.given := by
  rw [h.left]
  split
  · exact List.eraseP_sublist
  · exact .refl _

theorem Follows.given_sublist {a : Attempt A} (h : Follows toString origin l a) (hl : l.Sublist origin) :
    a.given.Sublist origin := by
  rw [h.given]
  split
  · exact .refl _
  · exact hl

/-- Where a pass leads to, the channel has these addresses. Nobody is there to see them after a fault. -/
def Pass.Leaves (addrs origin : List A) : Pass A M → Prop
  | .again s => s.channel.addrs = addrs ∧ s.channel.originAddrs = origin
  | .out (.ok (.returned s)) => s.channel.addrs = addrs ∧ s.channel.originAddrs = origin
  | .out (.ok (.done s)) => s.channel.addrs = addrs ∧ s.channel.originAddrs = origin
  | .out (.error _) => True

theorem RpcChannel.refill_given (ch : RpcChannel A) :
    ch.refill.addrs = (if ch.addrs = [] then ch.originAddrs else ch.addrs) ∧
      ch.refill.originAddrs = ch.originAddrs := by
  simp only [RpcChannel.refill]
  split <;> exact ⟨rfl, rfl⟩

/-- A pass makes no attempt only where there is no address at all. -/
theorem retryPass_spec (hpick : ∀ k addrs d, addrs ≠ [] → env.select k addrs d ∈ addrs) (k : Nat)
    (s : CallState A M) :
    (s.channel.refill.addrs = [] ∧ (retryPass env k s).1 = none ∧
      ∃ s', (retryPass env k s).2 = .out (.ok (.returned s')) ∧ s'.channel = s.channel.refill) ∨
    ∃ a, (retryPass env k s).1 = some a ∧ Follows env.toString s.channel.originAddrs s.channel.addrs a ∧
      (retryPass env k s).2.Leaves a.left s.channel.originAddrs := by
  obtain ⟨hgiven, horigin⟩ := RpcChannel.refill_given s.channel
  by_cases hne : s.channel.refill.addrs = []
  · rw [retryPass, if_pos hne]
    exact .inl ⟨hne, rfl, _, rfl, rfl⟩
  · have hchosen := hpick k s.channel.refill.addrs s.pbStruct hne
    have hrefilled : s.channel.addrs.isEmpty = true ↔ s.channel.addrs = [] := List.isEmpty_iff
    -- An attempt without a failure leaves the list that it was given.
    have hkept : ∀ result : Option SendAndRecv, ¬(∃ r ∈ result, Retried r) →
        Follows env.toString s.channel.originAddrs s.channel.addrs
          { refilled := s.channel.addrs.isEmpty, given := s.channel.refill.addrs,
            addr := env.select k s.channel.refill.addrs s.pbStruct, result := result,
            left := s.channel.refill.addrs } := by
      intro result hno
      exact ⟨hgiven, hrefilled, hne, hchosen, (if_neg hno).symm⟩
    have hnone : ¬∃ r ∈ (none : Option SendAndRecv), Retried r := by
      rintro ⟨r, hr, -⟩
      exact absurd hr (Option.not_mem_none r)
    right
    rw [retryPass, if_neg hne]
    simp only [chooseAddr]
    cases encode (env.genMsgNumber (k + 1)).bytes (TcpBuffer.new 128) s.pbStruct with
    | none => exact ⟨_, rfl, hkept none hnone, trivial⟩
    | some encoded =>
        dsimp only
        by_cases hsucc : encoded.2.encodeSucc = false
        · rw [if_pos hsucc]
          exact ⟨_, rfl, hkept none hnone, rfl, horigin⟩
        · rw [if_neg hsucc]
          cases env.sendAndRecv k with
          | received res =>
              have hno : ¬∃ r ∈ some (SendAndRecv.received res), Retried r := by
                rintro ⟨r, hr, hretried⟩
                cases Option.mem_some.mp hr
                exact hretried
              exact ⟨_, rfl, hkept _ hno, rfl, horigin⟩
          | failed ret errInfo nonzero =>
              dsimp only
              by_cases ht : ret ≠ ERROR_RPC_CALL_TIMEOUT
              · rw [if_pos ht]
                have hyes : ∃ r ∈ some (SendAndRecv.failed ret errInfo nonzero), Retried r :=
                  ⟨_, Option.mem_some_self _, ht⟩
                exact ⟨_, rfl, ⟨hgiven, hrefilled, hne, hchosen, (if_pos hyes).symm⟩, rfl, horigin⟩
              · rw [if_neg ht]
                have hno : ¬∃ r ∈ some (SendAndRecv.failed ret errInfo nonzero), Retried r := by
                  rintro ⟨r, hr, hretried⟩
                  cases Option.mem_some.mp hr
                  exact ht hretried
                exact ⟨_, rfl, hkept _ hno, rfl, horigin⟩

/-! ## Attempts in a row -/

/-- Attempts that follow each other, from the list `l` to the list `l'`. -/
inductive Chain (toString : A → Bytes) (origin : List A) : List A → List (Attempt A) → List A → Prop
  | nil (l : List A) : Chain toString origin l [] l
  | cons {l l' : List A} {a : Attempt A} {log : List (Attempt A)} (h : Follows toString origin l a)
      (hrest : Chain toString origin a.left log l') : Chain toString origin l (a :: log) l'

theorem Chain.append (h : Chain toString origin l log l') (h' : Chain toString origin l' log' l'') :
    Chain toString origin l (log ++ log') l'' := by
  induction h with
  | nil => exact h'
  | cons hfollows _ ih => exact .cons hfollows (ih h')

theorem Chain.split (h : Chain toString origin l (log ++ log') l'') :
    ∃ l', Chain toString origin l log l' ∧ Chain toString origin l' log' l'' := by
  induction log generalizing l with
  | nil => exact ⟨l, .nil l, h⟩
  | cons a log ih =>
      cases h with
      | cons hfollows hrest =>
          obtain ⟨l', h1, h2⟩ := ih hrest
          exact ⟨l', .cons hfollows h1, h2⟩

theorem Chain.sublist (h : Chain toString origin l log l') (hl : l.Sublist origin) : l'.Sublist origin := by
  induction h with
  | nil => exact hl
  | cons hfollows _ ih => exact ih (hfollows.left_sublist.trans (hfollows.given_sublist hl))

theorem Chain.follows (h : Chain toString origin l log l') (hl : l.Sublist origin) :
    ∀ a ∈ log, ∃ k, k.Sublist origin ∧ Follows toString origin k a := by
  induction h with
  | nil => exact fun a ha => absurd ha List.not_mem_nil
  | cons hfollows _ ih =>
      intro a ha
      rcases List.mem_cons.mp ha with rfl | ha
      · exact ⟨_, hl, hfollows⟩
      · exact ih (hfollows.left_sublist.trans (hfollows.given_sublist hl)) a ha

def failures (toString : A → Bytes) (t : Bytes) (log : List (Attempt A)) : Nat :=
  log.countP fun a => a.Failed ∧ toString a.addr = t

/-- A failure is one entry less in the list. -/
theorem Follows.failures_add {a : Attempt A} (h : Follows toString origin l a) (t : Bytes) :
    failures toString t [a] + a.left.countP (fun b => toString b = t) ≤ a.given.countP fun b => toString b = t := by
  by_cases hf : a.Failed
  · have hcount := (h.removesOne hf).countP t
    simp only [failures, List.countP_singleton, hf, true_and, decide_eq_true_eq]
    omega
  · have hsame : a.left = a.given := by rw [h.left, if_neg hf]
    simp [failures, hf, hsame]

theorem Chain.failures_le {a : Attempt A} (h : Follows toString origin l a)
    (hrest : Chain toString origin a.left log l') (hno : ∀ b ∈ log, b.refilled = false) (t : Bytes) :
    failures toString t (a :: log) ≤ a.given.countP fun b => toString b = t := by
  induction log generalizing l a with
  | nil =>
      have hadd := h.failures_add t
      omega
  | cons b log ih =>
      cases hrest with
      | cons hb hrest =>
          have hrestLe := ih hb hrest fun c hc => hno c (List.mem_cons_of_mem b hc)
          have hkept : a.left ≠ [] := by
            intro hnil
            have hyes := hb.refilled.mpr hnil
            rw [hno b List.mem_cons_self] at hyes
            cases hyes
          rw [hb.given, if_neg hkept] at hrestLe
          have hadd := h.failures_add t
          have hsum : failures toString t (a :: b :: log) =
              failures toString t [a] + failures toString t (b :: log) := by
            rw [← List.singleton_append, failures, List.countP_append]
            rfl
          omega

/-! ## Calls -/

theorem leaveLoop_channel {e : RetryExit A M} {r : CallState A M} (h : leaveLoop env e = .ok r) :
    e = .returned r ∨ ∃ s, e = .done s ∧ r.channel = s.channel := by
  cases e with
  | returned s =>
      cases h
      exact .inl rfl
  | done s =>
      simp only [leaveLoop, finishCall] at h
      refine .inr ⟨s, rfl, ?_⟩
      cases hres : s.resData with
      | none =>
          rw [hres] at h
          cases h
      | some res =>
          rw [hres] at h
          dsimp only at h
          cases hparse : env.parseResponse res.pbData with
          | none =>
              rw [hparse] at h
              cases h
              rfl
          | some response =>
              rw [hparse] at h
              cases h
              rfl

/-- The attempts of the loop are a chain from the list that it finds to the one that it leaves. -/
theorem retryLog_chain (hpick : ∀ k addrs d, addrs ≠ [] → env.select k addrs d ∈ addrs) (left k : Nat)
    (s : CallState A M) :
    ∃ l', Chain env.toString s.channel.originAddrs s.channel.addrs (retryLog env left k s) l' ∧
      ∀ r, (retryLoop env left k s).bind (leaveLoop env) = .ok r →
        r.channel.addrs = l' ∧ r.channel.originAddrs = s.channel.originAddrs := by
  induction left generalizing k s with
  | zero =>
      refine ⟨_, .nil _, fun r hr => ?_⟩
      rw [retryLoop, Except.bind] at hr
      rcases leaveLoop_channel hr with he | ⟨s', he, hch⟩
      · cases he
      · cases he
        rw [hch]
        exact ⟨rfl, rfl⟩
  | succ left ih =>
      rw [retryLoop, retryLog]
      rcases retryPass_spec hpick k s with ⟨hno, hattempt, s', hpass, hch⟩ | ⟨a, hattempt, hfollows, hleaves⟩
      · have hempty : s.channel.addrs = [] ∧ s.channel.originAddrs = [] := by
          rw [(RpcChannel.refill_given s.channel).1] at hno
          split at hno
          · exact ⟨‹_›, hno⟩
          · exact absurd hno ‹_›
        simp only [hpass, hattempt]
        refine ⟨[], hempty.1 ▸ .nil _, fun r hr => ?_⟩
        cases hr
        rw [hch]
        exact ⟨hno, (RpcChannel.refill_given s.channel).2⟩
      · rcases hpair : retryPass env k s with ⟨attempt, pass⟩
        rw [hpair] at hattempt hleaves
        dsimp only at hattempt hleaves ⊢
        subst hattempt
        cases pass with
        | again s' =>
            obtain ⟨haddrs, horigin⟩ := hleaves
            obtain ⟨l', hchain, hend⟩ := ih (k + 1) s'
            rw [haddrs, horigin] at hchain
            refine ⟨l', .cons hfollows hchain, fun r hr => ?_⟩
            obtain ⟨h1, h2⟩ := hend r hr
            exact ⟨h1, h2.trans horigin⟩
        | out exit =>
            refine ⟨a.left, .cons hfollows (.nil _), fun r hr => ?_⟩
            cases exit with
            | error e => cases hr
            | ok e =>
                rcases leaveLoop_channel hr with rfl | ⟨s', rfl, hch⟩
                · exact hleaves
                · rw [hch]
                  exact hleaves

theorem retryLog_length (env : CallEnv A M) (left k : Nat) (s : CallState A M) :
    (retryLog env left k s).length ≤ left := by
  induction left generalizing k s with
  | zero => exact Nat.le_refl _
  | succ left ih =>
      rw [retryLog]
      rcases retryPass env k s with ⟨attempt, pass⟩
      have hone : attempt.toList.length ≤ 1 := by cases attempt <;> simp
      cases pass with
      | again s' =>
          have hrest := ih (k + 1) s'
          dsimp only
          rw [List.length_append]
          omega
      | out r => exact Nat.le_trans hone (Nat.le_add_left 1 left)

/-- How many attempts a call has. -/
def attemptBound : Option (RpcController A) → Nat
  | none => 0
  | some c => (c.maxRetry + 1).toNat

theorem callLog_length (env : CallEnv A M) (channel : RpcChannel A) (controller : Option (RpcController A)) :
    (callLog env channel controller).length ≤ attemptBound controller := by
  cases controller with
  | none => exact Nat.le_refl _
  | some c =>
      rw [callLog]
      cases env.serializedRequest with
      | none => exact Nat.zero_le _
      | some pbData => exact retryLog_length env _ _ _

theorem callLog_chain (hpick : ∀ k addrs d, addrs ≠ [] → env.select k addrs d ∈ addrs) (channel : RpcChannel A)
    (controller : Option (RpcController A)) :
    ∃ l', Chain env.toString channel.originAddrs channel.addrs (callLog env channel controller) l' ∧
      ∀ n r, castAndCall env channel controller = .ok (n, r) →
        (∀ s ∈ r, s.channel.addrs = l' ∧ s.channel.originAddrs = channel.originAddrs) ∧
          (r = none → l' = channel.addrs) := by
  cases controller with
  | none =>
      refine ⟨_, .nil _, fun n r hr => ?_⟩
      cases hr
      exact ⟨fun s hs => absurd hs (Option.not_mem_none s), fun _ => rfl⟩
  | some c =>
      rw [callLog, castAndCall]
      cases hs : env.serializedRequest with
      | none =>
          refine ⟨_, .nil _, fun n r hr => ?_⟩
          rw [callMethod, hs] at hr
          cases hr
          exact ⟨fun s hs => by cases hs; exact ⟨rfl, rfl⟩, fun h => absurd h (Option.some_ne_none _)⟩
      | some pbData =>
          obtain ⟨l', hchain, hend⟩ := retryLog_chain hpick (c.maxRetry + 1).toNat 0 (startOf env channel c pbData)
          refine ⟨l', hchain, fun n r hr => ?_⟩
          rw [callMethod_serialized hs] at hr
          cases hloop : (retryLoop env (c.maxRetry + 1).toNat 0 (startOf env channel c pbData)).bind
              (leaveLoop env) with
          | error e =>
              rw [hloop] at hr
              cases hr
          | ok s =>
              rw [hloop] at hr
              cases hr
              exact ⟨fun s' hs' => by cases hs'; exact hend s hloop, fun h => absurd h (Option.some_ne_none _)⟩

/-! ## All calls of a channel -/

/-- What the attempts of a channel keep to. Between two refills of the list lies a stretch of attempts of which only
the first may have refilled it. -/
structure Disciplined (toString : A → Bytes) (origin : List A) (s : ChannelRun A) : Prop where
  addrs : s.channel.addrs.Subperm origin
  select : ∀ a ∈ s.attempts, a.given ≠ [] ∧ a.given.Subperm origin ∧ a.left.Subperm origin
  removes : ∀ a ∈ s.attempts, a.Failed → RemovesOne toString a.addr a.given a.left
  bounded : ∀ c ∈ s.calls, c.attempts.length ≤ attemptBound c.controller
  between : ∀ before stretch after, s.attempts = before ++ stretch ++ after →
    (∀ a ∈ stretch.tail, a.refilled = false) →
      ∀ t, failures toString t stretch ≤ origin.countP fun a => toString a = t

structure ChannelInv (toString : A → Bytes) (origin : List A) (s : ChannelRun A) : Prop where
  origin_eq : s.channel.originAddrs = origin
  chain : ∃ l, Chain toString origin origin s.attempts l ∧ (s.crashed = false → s.channel.addrs = l)
  bounded : ∀ c ∈ s.calls, c.attempts.length ≤ attemptBound c.controller

theorem channelNext_inv {s s' : ChannelRun A} {call : CallEnv A M × Option (RpcController A)}
    (hs : ChannelInv toString origin s) (hok : Picks toString s call) (hn : channelNext s call = some s') :
    ChannelInv toString origin s' := by
  obtain ⟨rfl, hpick⟩ := hok
  obtain ⟨rfl, ⟨l, hchain, haddrs⟩, hbounded⟩ := hs
  simp only [channelNext] at hn
  split at hn
  · cases hn
  · rename_i hcrashed
    rw [Bool.not_eq_true] at hcrashed
    have hnow : s.channel.addrs = l := haddrs hcrashed
    obtain ⟨l', hcall, hend⟩ := callLog_chain hpick s.channel call.2
    rw [hnow] at hcall
    let record : CallRecord A := { controller := call.2, attempts := callLog call.1 s.channel call.2 }
    have hbound : ∀ c ∈ s.calls ++ [record], c.attempts.length ≤ attemptBound c.controller := by
      intro c hc
      rcases List.mem_append.mp hc with hc | hc
      · exact hbounded c hc
      · cases List.mem_singleton.mp hc
        exact callLog_length call.1 s.channel call.2
    have hlog : s.attempts ++ record.attempts = (s.calls ++ [record]).flatMap CallRecord.attempts := by
      rw [List.flatMap_append, List.flatMap_singleton]
      rfl
    have hall : Chain call.1.toString s.channel.originAddrs s.channel.originAddrs
        ((s.calls ++ [record]).flatMap CallRecord.attempts) l' := hlog ▸ hchain.append hcall
    cases hcast : castAndCall call.1 s.channel call.2 with
    | error e =>
        rw [hcast] at hn
        cases hn
        exact ⟨rfl, ⟨l', hall, fun h => absurd h (Bool.false_ne_true ∘ Eq.symm)⟩, hbound⟩
    | ok p =>
        obtain ⟨n, r⟩ := p
        obtain ⟨hsome, hnone⟩ := hend n r hcast
        rw [hcast] at hn
        cases r with
        | none =>
            cases hn
            exact ⟨rfl, ⟨l', hall, fun _ => (hnone rfl).symm⟩, hbound⟩
        | some r =>
            cases hn
            obtain ⟨h1, h2⟩ := hsome r rfl
            exact ⟨h2, ⟨l', hall, fun _ => h1⟩, hbound⟩

theorem ChannelInv.disciplined {s : ChannelRun A} (h : ChannelInv toString origin s) :
    Disciplined toString origin s := by
  obtain ⟨l, hchain, -⟩ := h.chain
  refine ⟨(h.origin_eq ▸ s.channel.sub).subperm, fun a ha => ?_, fun a ha hf => ?_, h.bounded, ?_⟩
  · obtain ⟨k, hk, hfollows⟩ := hchain.follows (.refl _) a ha
    have hgiven := hfollows.given_sublist hk
    exact ⟨hfollows.given_ne, hgiven.subperm, (hfollows.left_sublist.trans hgiven).subperm⟩
  · obtain ⟨k, -, hfollows⟩ := hchain.follows (.refl _) a ha
    exact hfollows.removesOne hf
  · intro before stretch after hlog hno t
    rw [hlog] at hchain
    obtain ⟨l₂, hfront, -⟩ := hchain.split
    obtain ⟨l₁, hbefore, hstretch⟩ := hfront.split
    cases hstretch with
    | nil => exact Nat.zero_le _
    | cons hfollows hrest =>
        have hgiven := hfollows.given_sublist (hbefore.sublist (.refl _))
        exact Nat.le_trans (Chain.failures_le hfollows hrest hno t) hgiven.countP_le

/-- Nobody listens at any of the two addresses. -/
def deafPeers : CallEnv Bool Unit where
  toString a := if a then text "127.0.0.1:81" else text "127.0.0.1:80"
  localAddr := false
  methodFullName := text "S.m"
  serializedRequest := some []
  parseResponse _ := none
  runtimeMsgNo := none
  genMsgNumber _ := ⟨text "1", MsgNumber.digits_one⟩
  select _ addrs _ := addrs.headD false
  sendAndRecv _ := .failed ERROR_FAILED_CONNECT [] (by decide)

end Tirpc
