import Mathlib.Data.List.Nodup
import Tirpc.Rpc.Lemmas.Link
import Tirpc.Tcp.Theorems.Input

/-!
# Requests and their replies, end to end
-/

namespace Tirpc

open Lib

variable {A M : Type} {s s' : RpcConnection A M} {l : RpcStep A M} {r : TinyPbStruct}

/-! ## The replies of a client -/

/-- What is held or has been taken under a number is a reply with that number. When all numbers are different, each
reply is held until it is taken, which happens once. -/
structure ReplyStore.Kept (s : ReplyStore) : Prop where
  held : ∀ k r, s.replyDatas k = some r → r.msgSeq = k ∧ r ∈ s.received
  taken : ∀ p ∈ s.taken, p.2.msgSeq = p.1 ∧ p.2 ∈ s.received
  once : (s.received.map TinyPbStruct.msgSeq).Nodup → (s.taken.map Prod.fst).Nodup ∧
    (∀ p ∈ s.taken, s.replyDatas p.1 = none) ∧
    ∀ r ∈ s.received, s.replyDatas r.msgSeq = some r ∨ (r.msgSeq, r) ∈ s.taken

namespace ReplyStore

variable {s : ReplyStore} {tmp : TinyPbStruct} {msgReq : Bytes}

theorem kept_empty : ({} : ReplyStore).Kept where
  held k r h := by cases h
  taken p hp := absurd hp List.not_mem_nil
  once _ := ⟨List.nodup_nil, fun p hp => absurd hp List.not_mem_nil, fun r hr => absurd hr List.not_mem_nil⟩

theorem Kept.insert (h : s.Kept) : (s.insert tmp).Kept := by
  have hsub : ∀ {r}, r ∈ s.received → r ∈ s.received ++ [tmp] := fun hr => List.mem_append_left _ hr
  have hlast : tmp ∈ s.received ++ [tmp] := List.mem_append_right _ (List.mem_singleton_self tmp)
  by_cases hnone : s.replyDatas tmp.msgSeq = none
  · have hdatas : (s.insert tmp).replyDatas = Function.update s.replyDatas tmp.msgSeq (some tmp) := if_pos hnone
    refine ⟨fun k r hk => ?_, fun p hp => ⟨(h.taken p hp).1, hsub (h.taken p hp).2⟩, fun hnodup => ?_⟩
    · rw [hdatas, Function.update_apply] at hk
      split at hk
      case isTrue he =>
        obtain rfl := Option.some.inj hk
        exact ⟨he.symm, hlast⟩
      case isFalse => exact ⟨(h.held k r hk).1, hsub (h.held k r hk).2⟩
    · rw [ReplyStore.insert, List.map_append, List.map_singleton, List.nodup_append] at hnodup
      obtain ⟨hnodup, -, hnew⟩ := hnodup
      -- the number of the new reply is none of those that were received before
      have hfresh : ∀ r ∈ s.received, r.msgSeq ≠ tmp.msgSeq := fun r hr =>
        hnew _ (List.mem_map_of_mem hr) _ (List.mem_singleton_self _)
      obtain ⟨htaken, hgone, hheld⟩ := h.once hnodup
      rw [hdatas]
      refine ⟨htaken, fun p hp => ?_, fun r hr => ?_⟩
      · obtain ⟨hp1, hp2⟩ := h.taken p hp
        rw [Function.update_of_ne (hp1 ▸ hfresh _ hp2)]
        exact hgone p hp
      · rcases List.mem_append.mp hr with hr | hr
        · rw [Function.update_of_ne (hfresh r hr)]
          exact hheld r hr
        · rw [List.mem_singleton.mp hr]
          exact .inl (Function.update_self _ _ _)
  · have hdatas : (s.insert tmp).replyDatas = s.replyDatas := if_neg hnone
    obtain ⟨r, hr⟩ := Option.ne_none_iff_exists'.mp hnone
    obtain ⟨hnumber, hmem⟩ := h.held _ r hr
    refine ⟨fun k r hk => ?_, fun p hp => ⟨(h.taken p hp).1, hsub (h.taken p hp).2⟩, fun hnodup => ?_⟩
    · rw [hdatas] at hk
      exact ⟨(h.held k r hk).1, hsub (h.held k r hk).2⟩
    · rw [ReplyStore.insert, List.map_append, List.map_singleton, List.nodup_append] at hnodup
      exact absurd hnumber (hnodup.2.2 _ (List.mem_map_of_mem hmem) _ (List.mem_singleton_self _))

theorem Kept.getResPackageData (h : s.Kept) : (s.getResPackageData msgReq).2.Kept := by
  unfold ReplyStore.getResPackageData
  split
  case h_1 => exact h
  case h_2 pbStruct hfound =>
    obtain ⟨hnumber, hmem⟩ := h.held _ _ hfound
    refine ⟨fun k r hk => ?_, fun p hp => ?_, fun hnodup => ?_⟩
    · simp only [Function.update_apply] at hk
      split at hk
      case isTrue => cases hk
      case isFalse => exact h.held k r hk
    · rcases List.mem_append.mp hp with hp | hp
      · exact h.taken p hp
      · rw [List.mem_singleton.mp hp]
        exact ⟨hnumber, hmem⟩
    · obtain ⟨htaken, hgone, hheld⟩ := h.once hnodup
      have hnot : msgReq ∉ s.taken.map Prod.fst := fun hin => by
        obtain ⟨p, hp, rfl⟩ := List.mem_map.mp hin
        exact absurd ((hgone p hp).symm.trans hfound) (by simp)
      refine ⟨?_, fun p hp => ?_, fun r hr => ?_⟩
      · rw [List.map_append, List.map_singleton]
        exact List.Nodup.append htaken (List.nodup_singleton _) (List.disjoint_singleton.mpr hnot)
      · simp only [Function.update_apply]
        split
        case isTrue => rfl
        case isFalse hne =>
          rcases List.mem_append.mp hp with hp | hp
          · exact hgone p hp
          · exact absurd (by rw [List.mem_singleton.mp hp]) hne
      · simp only [Function.update_apply]
        split
        case isTrue he =>
          rcases hheld r hr with hheld | hheld
          · rw [he, hfound] at hheld
            obtain rfl := Option.some.inj hheld
            exact .inr (List.mem_append_right _ (by rw [he]; exact List.mem_singleton_self _))
          · exact .inr (List.mem_append_left _ hheld)
        case isFalse =>
          rcases hheld r hr with hheld | hheld
          · exact .inl hheld
          · exact .inr (List.mem_append_left _ hheld)

end ReplyStore

/-! ## The invariant -/

/-- The requests that have been dispatched are the first of those that were sent, and the replies that have come are
the first of those that the server has encoded. -/
structure Answering (s : RpcConnection A M) : Prop where
  requests : ∃ done rest, s.sent = done ++ rest ∧ s.served.map Request.data = done.map (received {}) ∧
    Conveys s.requests rest
  replies : ∃ done rest, s.served.map Request.reply = done ++ rest ∧ s.store.received = done.map (received {}) ∧
    Conveys s.replies rest
  numbered : ∀ q ∈ s.served, q.data.msgSeq ≠ []
  kept : s.store.Kept

namespace Answering

theorem start (h : RpcStart s) : Answering s := by
  obtain ⟨hrequests, hreplies, hstore, hsent, hserved⟩ := h
  refine ⟨⟨[], [], hsent, by rw [hserved]; rfl, .start hrequests⟩, ⟨[], [], by rw [hserved]; rfl, ?_, .start hreplies⟩,
    fun q hq => ?_, ?_⟩
  · rw [hstore]
    rfl
  · rw [hserved] at hq
    exact absurd hq List.not_mem_nil
  · rw [hstore]
    exact ReplyStore.kept_empty

/-- A step that only moves bytes of one link. -/
theorem setLink (h : Answering s) {replies : Bool} {link : Link}
    (hlink : ∀ rest, Conveys (s.link replies) rest → Conveys link rest) : Answering (s.setLink replies link) := by
  cases replies with
  | false =>
      obtain ⟨done, rest, hsent, hdone, hc⟩ := h.requests
      exact ⟨⟨done, rest, hsent, hdone, hlink rest hc⟩, h.replies, h.numbered, h.kept⟩
  | true =>
      obtain ⟨done, rest, hserved, hdone, hc⟩ := h.replies
      exact ⟨h.requests, ⟨done, rest, hserved, hdone, hlink rest hc⟩, h.numbered, h.kept⟩

/-- A turn of `Execute` at the server. -/
theorem serverExecute (h : Answering s) {gen : MsgNumber × MsgNumber} {services : ServiceMap A M}
    (hok : s.Proper (.serverExecute gen services)) (hn : s.next (.serverExecute gen services) = some s') :
    Answering s' := by
  obtain ⟨done, rest, hsent, hdone, hc⟩ := h.requests
  obtain ⟨done', rest', hserved, hdone', hc'⟩ := h.replies
  obtain ⟨⟨requests, t⟩, hexec, rfl⟩ := Option.map_eq_some_iff.mp hn
  rcases hc.execute (fun hr => (hok hr).1) hexec with ⟨d, ds, rfl, hr, ⟨b, hdec⟩, hserve, hrest⟩ | ⟨rfl, hrest⟩
  · have hans : Answerable services (received {} d) s.replies.out := (hok hr).2 b _ hdec rfl
    have hshort : ShortFields (received {} d) := Accepted.short ⟨_, _, hc.buf, hdec, rfl⟩
    obtain ⟨out, hdispatch, hout⟩ := hans.dispatch gen hshort hc'.out.holds
    simp only [serveNext, hdispatch, Option.map_some, Option.some.injEq] at hserve
    subst hserve
    refine ⟨⟨done ++ [d], ds, ?_, ?_, hrest⟩, ⟨done', rest' ++ [replyPackage gen.1 services (received {} d)],
      ?_, hdone', ?_⟩, fun q hq => ?_, h.kept⟩
    · rw [hsent, List.append_assoc]
      rfl
    · show (s.served ++ _).map _ = _
      rw [List.map_append, hdone, List.map_append]
      rfl
    · show (s.served ++ _).map _ = _
      rw [List.map_append, hserved, List.append_assoc]
      rfl
    · exact hc'.append (hans.sendable gen hshort) hout
    · rcases List.mem_append.mp hq with hq | hq
      · exact h.numbered q hq
      · rw [List.mem_singleton.mp hq]
        exact hans.msgSeq
  · exact ⟨⟨done, rest, hsent, hdone, hrest⟩, ⟨done', rest', hserved, hdone', hc'⟩, h.numbered, h.kept⟩

/-- A turn of `Execute` at the client. -/
theorem clientExecute (h : Answering s) (hok : s.Proper .clientExecute) (hn : s.next .clientExecute = some s') :
    Answering s' := by
  obtain ⟨done, rest, hserved, hdone, hc⟩ := h.replies
  obtain ⟨⟨replies, store⟩, hexec, rfl⟩ := Option.map_eq_some_iff.mp hn
  rcases hc.execute hok hexec with ⟨d, ds, rfl, -, -, hinsert, hrest⟩ | ⟨rfl, hrest⟩
  · obtain rfl := Option.some.inj hinsert
    refine ⟨h.requests, ⟨done ++ [d], ds, ?_, ?_, hrest⟩, h.numbered, h.kept.insert⟩
    · rw [hserved, List.append_assoc]
      rfl
    · show s.store.received ++ [_] = _
      rw [hdone, List.map_append]
      rfl
  · exact ⟨h.requests, ⟨done, rest, hserved, hdone, hrest⟩, h.numbered, h.kept⟩

theorem step (h : Answering s) (hok : s.Proper l) (hn : s.next l = some s') : Answering s' := by
  cases l with
  | send gen request =>
      obtain ⟨done, rest, hsent, hdone, hc⟩ := h.requests
      obtain ⟨hsendable, hroom⟩ := hok
      obtain ⟨out, henc, hout⟩ := encode_sendable gen hsendable hc.out.holds hroom
      simp only [RpcConnection.next, henc, Option.map_some, Option.some.injEq] at hn
      subst hn
      refine ⟨⟨done, rest ++ [request], ?_, hdone, hc.append hsendable hout⟩, h.replies, h.numbered, h.kept⟩
      rw [hsent, List.append_assoc]
  | output replies env =>
      obtain ⟨link, hlink, rfl⟩ := Option.map_eq_some_iff.mp hn
      exact h.setLink fun rest hc => hc.output hok hlink
  | input replies env =>
      obtain ⟨link, hlink, rfl⟩ := Option.map_eq_some_iff.mp hn
      exact h.setLink fun rest hc => hc.input hlink
  | serverExecute gen services => exact h.serverExecute hok hn
  | clientExecute => exact h.clientExecute hok hn
  | getResPackageData msgReq =>
      obtain rfl := Option.some.inj hn
      refine ⟨h.requests, ?_, h.numbered, h.kept.getResPackageData⟩
      have hreceived : (s.store.getResPackageData msgReq).2.received = s.store.received := by
        unfold ReplyStore.getResPackageData
        split <;> rfl
      obtain ⟨done, rest, hserved, hdone, hc⟩ := h.replies
      exact ⟨done, rest, hserved, hreceived.trans hdone, hc⟩

end Answering

/-! ## Every run -/

theorem reachable_answering (h : Reachable RpcConnection.next RpcStart RpcConnection.Proper s) : Answering s :=
  h.invariant (fun _ hs => .start hs) fun _ _ _ hI hok hn => hI.step hok hn

/-- The reply `r` is what the server has made of the request that it was given under the number `k`. -/
def Answers (s : RpcConnection A M) (k : Bytes) (r : TinyPbStruct) : Prop :=
  ∃ q ∈ s.served, q.data.msgSeq = k ∧ ReplyTo q.gen q.services q.data r

theorem Answering.answers (h : Answering s) {k : Bytes} (hr : r ∈ s.store.received) (hk : r.msgSeq = k) :
    Answers s k r := by
  obtain ⟨done, rest, hserved, hdone, -⟩ := h.replies
  rw [hdone] at hr
  obtain ⟨reply, hreply, rfl⟩ := List.mem_map.mp hr
  have hmem : reply ∈ s.served.map Request.reply := hserved ▸ List.mem_append_left rest hreply
  obtain ⟨q, hq, rfl⟩ := List.mem_map.mp hmem
  have hreplyTo : ReplyTo q.gen q.services q.data (received {} q.reply) := replyTo_received (h.numbered q hq)
  exact ⟨q, hq, hreplyTo.msgSeq.symm.trans hk, hreplyTo⟩

/-- The numbers of the replies that have come are the first of those of the requests. -/
theorem Answering.numbers (h : Answering s) :
    s.store.received.map TinyPbStruct.msgSeq <+: s.sent.map TinyPbStruct.msgSeq := by
  obtain ⟨done, rest, hsent, hdone, -⟩ := h.requests
  obtain ⟨done', rest', hserved, hdone', -⟩ := h.replies
  have hreply : ∀ q ∈ s.served, q.reply.msgSeq = q.data.msgSeq := fun q hq => by
    have hreplyTo : ReplyTo q.gen q.services q.data (received {} q.reply) := replyTo_received (h.numbered q hq)
    exact hreplyTo.msgSeq
  have hserved' : (s.served.map Request.reply).map TinyPbStruct.msgSeq =
      (s.served.map Request.data).map TinyPbStruct.msgSeq := by
    rw [List.map_map, List.map_map]
    exact List.map_congr_left hreply
  have hreceived : ∀ l : List TinyPbStruct, (l.map (received {})).map TinyPbStruct.msgSeq = l.map TinyPbStruct.msgSeq :=
    fun l => by
      rw [List.map_map]
      rfl
  refine List.IsPrefix.trans ?_ (⟨rest.map TinyPbStruct.msgSeq, ?_⟩ : done.map TinyPbStruct.msgSeq <+: _)
  · refine ⟨rest'.map TinyPbStruct.msgSeq, ?_⟩
    rw [hdone', hreceived, ← List.map_append, ← hserved, hserved', hdone, hreceived]
  · rw [hsent, List.map_append]

theorem Answering.nodup (h : Answering s) (hnodup : (s.sent.map TinyPbStruct.msgSeq).Nodup) :
    (s.store.received.map TinyPbStruct.msgSeq).Nodup := hnodup.sublist h.numbers.sublist

/-! ## Runs that can be evaluated -/

/-- A whole package stands at the front. -/
def FrameFirst (b : TcpBuffer) : Prop :=
  b.readIndex + 5 ≤ b.writeIndex ∧ frameAt b.buffer b.writeIndex b.readIndex ≠ none

instance (b : TcpBuffer) : Decidable (FrameFirst b) := inferInstanceAs (Decidable (_ ∧ _))

/-- The part of `Proper` that can be evaluated. -/
def Evident (s : RpcConnection A M) : RpcStep A M → Prop
  | .send _ request => Sendable request ∧ s.requests.out.Room (packageLen request)
  | .output replies env => 0 ≤ sendHook env 0 (s.link replies).out.readable
  | .serverExecute _ services =>
      0 < s.requests.buf.readable → FrameFirst s.requests.buf ∧
        ∀ p ∈ (decode s.requests.buf {}).res, p.2.decodeSucc = true → Answerable services p.2 s.replies.out
  | .clientExecute => 0 < s.replies.buf.readable → FrameFirst s.replies.buf
  | _ => True

instance (s : RpcConnection A M) : (l : RpcStep A M) → Decidable (Evident s l)
  | .send .. | .output .. | .serverExecute .. | .clientExecute => by
      unfold Evident
      infer_instance
  | .input .. | .getResPackageData _ => inferInstanceAs (Decidable True)

theorem Evident.proper (h : Evident s l) : s.Proper l := by
  cases l with
  | send gen request => exact h
  | output replies env => exact fun _ => h
  | serverExecute gen services => exact fun hr => ⟨.inl (h hr).1, fun b d hdec => (h hr).2 (b, d) hdec⟩
  | clientExecute => exact fun hr => .inl (h hr)
  | input replies env => exact trivial
  | getResPackageData msgReq => exact trivial

def echoReply : TinyPbStruct := replyPackage noNumbers.1 echoServices (received {} echoRequest)

def echoStart : RpcConnection Unit Bytes where
  requests := { out := .new 128, buf := .new 128 }
  replies := { out := .new 128, buf := .new 128 }

theorem echoStart_start : RpcStart echoStart := by
  have hnew : (TcpBuffer.new 128).Holds [] := TcpBuffer.new_holds (by decide)
  exact ⟨⟨hnew, rfl, hnew, rfl⟩, ⟨hnew, rfl, hnew, rfl⟩, rfl, rfl, rfl⟩

/-- A request goes to the server, and its reply comes back. -/
def echoRun : List (RpcStep Unit Bytes) := [
  .send [] echoRequest, .output false (sendsAll .connected),
  .input false (oneArrival (package echoRequest) (by decide)),
  .serverExecute noNumbers echoServices, .serverExecute noNumbers echoServices,
  .output true (sendsAll .connected),
  .input true (oneArrival (package echoReply) (by decide)), .clientExecute, .clientExecute]

theorem reachable_evident {start : RpcConnection A M} {ls : List (RpcStep A M)} (h : RpcStart start)
    (hok : RunOk RpcConnection.next Evident start ls) (hrun : runLabels RpcConnection.next start ls = some s) :
    Reachable RpcConnection.next RpcStart RpcConnection.Proper s :=
  Reachable.of_runOk (.start h) (hok.imp fun _ _ => Evident.proper) hrun

/-! ## What a client may rely on -/

/-- However the bytes are cut on their way and whatever the order of the steps: the server dispatches the requests as
they were sent, each at most once and in their order, and what the client takes under a number is the reply to a request
with that number. When all numbers are different, nothing is taken twice. -/
theorem requests_answered (h : Reachable RpcConnection.next RpcStart RpcConnection.Proper s) :
    s.served.map Request.data <+: s.sent.map (received {}) ∧ (∀ p ∈ s.store.taken, Answers s p.1 p.2) ∧
      ((s.sent.map TinyPbStruct.msgSeq).Nodup → (s.store.taken.map Prod.fst).Nodup) := by
  have hanswering := reachable_answering h
  obtain ⟨done, rest, hsent, hdone, -⟩ := hanswering.requests
  refine ⟨⟨rest.map (received {}), ?_⟩, fun p hp => ?_, fun hnodup => ?_⟩
  · rw [hdone, hsent, List.map_append]
  · obtain ⟨hnumber, hmem⟩ := hanswering.kept.taken p hp
    exact hanswering.answers hmem hnumber
  · exact (hanswering.kept.once (hanswering.nodup hnodup)).1

/-- The reply to the echo request is taken under its number. -/
theorem requests_answered_echo :
    ∃ s : RpcConnection Unit Bytes, s.store.taken.length = 1 ∧ ∀ p ∈ s.store.taken, Answers s p.1 p.2 := by
  have htaken : (runLabels RpcConnection.next echoStart (echoRun ++ [.getResPackageData (text "1")])).map
      (fun s => s.store.taken.length) = some 1 := by decide +kernel
  obtain ⟨s, hrun, hlen⟩ := Option.map_eq_some_iff.mp htaken
  have hs := reachable_evident echoStart_start (by decide +kernel) hrun
  exact ⟨s, hlen, (requests_answered hs).2.1⟩

/-- When nothing is on its way any more, all requests have been dispatched and all replies have come; and when all
numbers are different, the reply to each request is held for the client, or has been taken. -/
theorem quiet_answered (h : Reachable RpcConnection.next RpcStart RpcConnection.Proper s) (hrequests : s.requests.Quiet)
    (hreplies : s.replies.Quiet) :
    s.served.map Request.data = s.sent.map (received {}) ∧
      s.store.received = (s.served.map Request.reply).map (received {}) ∧
      ((s.sent.map TinyPbStruct.msgSeq).Nodup → ∀ d ∈ s.sent, ∃ r, Answers s d.msgSeq r ∧
        (s.store.replyDatas d.msgSeq = some r ∨ (d.msgSeq, r) ∈ s.store.taken)) := by
  have hanswering := reachable_answering h
  obtain ⟨done, rest, hsent, hdone, hc⟩ := hanswering.requests
  obtain ⟨done', rest', hserved, hdone', hc'⟩ := hanswering.replies
  obtain rfl := hc.all_handed_on hrequests
  obtain rfl := hc'.all_handed_on hreplies
  rw [List.append_nil] at hsent hserved
  have hall : s.store.received = (s.served.map Request.reply).map (received {}) := by rw [hdone', hserved]
  refine ⟨by rw [hdone, hsent], hall, fun hnodup d hd => ?_⟩
  have hdata : received {} d ∈ s.served.map Request.data := by
    rw [hdone, ← hsent]
    exact List.mem_map_of_mem hd
  obtain ⟨q, hq, hqd⟩ := List.mem_map.mp hdata
  have hreplyTo : ReplyTo q.gen q.services q.data (received {} q.reply) :=
    replyTo_received (hanswering.numbered q hq)
  have hnumber : (received {} q.reply).msgSeq = d.msgSeq := by
    rw [hreplyTo.msgSeq, hqd]
    rfl
  have hmem : received {} q.reply ∈ s.store.received := by
    rw [hall, List.map_map]
    exact List.mem_map_of_mem (f := received {} ∘ Request.reply) hq
  have hheld := (hanswering.kept.once (hanswering.nodup hnodup)).2.2 _ hmem
  rw [hnumber] at hheld
  exact ⟨_, hanswering.answers hmem hnumber, hheld⟩


/-- Behind the run, the reply to the echo request is there. -/
theorem quiet_answered_echo :
    ∃ s : RpcConnection Unit Bytes, ∃ r, Answers s (text "1") r ∧
      (s.store.replyDatas (text "1") = some r ∨ (text "1", r) ∈ s.store.taken) := by
  have hquiet : (runLabels RpcConnection.next echoStart echoRun).map (fun s =>
      decide ((s.requests.out.content = [] ∧ s.requests.wire = [] ∧ s.requests.place = .idle) ∧
        (s.replies.out.content = [] ∧ s.replies.wire = [] ∧ s.replies.place = .idle) ∧
        s.sent = [echoRequest])) = some true := by decide +kernel
  obtain ⟨s, hrun, hlast⟩ := Option.map_eq_some_iff.mp hquiet
  obtain ⟨hrequests, hreplies, hsent⟩ := of_decide_eq_true hlast
  have hs := reachable_evident echoStart_start (by decide +kernel) hrun
  refine ⟨s, (quiet_answered hs hrequests hreplies).2.2 ?_ echoRequest ?_⟩
  · rw [hsent]
    exact List.nodup_singleton _
  · rw [hsent]
    exact List.mem_singleton_self _

end Tirpc
