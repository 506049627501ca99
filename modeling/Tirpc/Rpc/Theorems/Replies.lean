import Mathlib.Data.List.Forall2
import Tirpc.Rpc.Lemmas.Dispatch
import Tirpc.Rpc.Lemmas.Fields
import Tirpc.Rpc.Lemmas.Stream

/-!
# One reply for each request

Which requests `Dispatch` answers with a frame that the client decodes to their reply, and what a
client then reads after any number of them.
-/

namespace Tirpc

open Lib

variable {A M : Type} {gen : MsgNumber × MsgNumber} {services : ServiceMap A M} {d : TinyPbStruct}
variable {out out' : TcpBuffer}

def Accepted (d : TinyPbStruct) : Prop :=
  ∃ b b', b.Valid ∧ (decode b {}).res = some (b', d) ∧ d.decodeSucc = true

def answerSize (services : ServiceMap A M) (d : TinyPbStruct) : Int :=
  26 + (answerLengths services d).2 + d.serviceFullName.length + d.msgSeq.length
    + (answerLengths services d).1

/-- The request names a method and has a number, the error text fits the array of the client, and the
frame is no longer than an `int` says and has room in the out buffer. -/
structure Answerable (services : ServiceMap A M) (d : TinyPbStruct) (out : TcpBuffer) : Prop where
  serviceName : d.serviceFullName ≠ []
  msgSeq : d.msgSeq ≠ []
  text : (answerLengths services d).1 < 512
  size : answerSize services d < 2147483648
  room : out.Room (answerSize services d)

instance (services : ServiceMap A M) (d : TinyPbStruct) (out : TcpBuffer) : Decidable (Answerable services d out) :=
  decidable_of_iff (_ ∧ _ ∧ _ ∧ _ ∧ _) ⟨fun h => ⟨h.1, h.2.1, h.2.2.1, h.2.2.2.1, h.2.2.2.2⟩,
    fun h => ⟨h.serviceName, h.msgSeq, h.text, h.size, h.room⟩⟩

/-- What a reply has in common with what `Dispatch` has set for the request. -/
structure ReplyTo (gen : MsgNumber × MsgNumber) (services : ServiceMap A M) (d r : TinyPbStruct) : Prop where
  decodeSucc : r.decodeSucc = true
  msgSeq : r.msgSeq = d.msgSeq
  errCode : r.errCode = (replyPackage gen.1 services d).errCode
  errInfo : r.errInfo = (replyPackage gen.1 services d).errInfo

/-- `Dispatch` appends one frame to the out buffer, and the client decodes it to a reply. -/
def AnsweredOnce (gen : MsgNumber × MsgNumber) (services : ServiceMap A M) (d : TinyPbStruct)
    (out : TcpBuffer) : Prop :=
  ∃ out' frame, dispatch gen services d out = some out' ∧ out'.Holds (out.content ++ frame) ∧
    ∀ client : TcpBuffer, client.Holds frame → ∃ client' r,
      (decode client {}).res = some (client', r) ∧ client'.Holds [] ∧ ReplyTo gen services d r

theorem Accepted.short (h : Accepted d) : ShortFields d := by
  obtain ⟨b, b', hv, hdec, hs⟩ := h
  obtain ⟨f, -, -, hparse, -⟩ := decode_accepted hv hdec hs
  exact parseFrame_delivers d hparse hs

/-! ## Answerable requests are answered -/

theorem packageLen_reply (hm : d.msgSeq ≠ []) :
    packageLen (replyPackage gen.1 services d) = answerSize services d := by
  have ha : AnswerTo gen.1 services d _ := replyPackage_answerTo
  have hl := ha.lengths hm
  simp only [packageLen, answerSize]
  rw [ha.serviceFullName, ha.msgSeq, if_neg hm, ← hl]

theorem Answerable.sendable (gen : MsgNumber × MsgNumber) (h : Answerable services d out) (hd : ShortFields d) :
    Sendable (replyPackage gen.1 services d) := by
  have ha : AnswerTo gen.1 services d _ := replyPackage_answerTo
  have hl := congrArg Prod.fst (ha.lengths h.msgSeq)
  have hmsg := ha.msgSeq
  rw [if_neg h.msgSeq] at hmsg
  refine ⟨?_, ?_, ?_, ha.errCode, ?_⟩
  · rw [hmsg]
    exact ⟨List.length_pos_iff.mpr h.msgSeq, hd.msgSeq⟩
  · rw [ha.serviceFullName]
    exact ⟨List.length_pos_iff.mpr h.serviceName, hd.serviceName⟩
  · exact ⟨lt_of_eq_of_lt hl h.text, ha.errInfo_text hd.serviceName.2⟩
  · rw [packageLen_reply h.msgSeq]
    exact h.size

theorem Answerable.dispatch {q : Bytes} (gen : MsgNumber × MsgNumber) (h : Answerable services d out) (hd : ShortFields d)
    (ho : out.Holds q) :
    ∃ out', dispatch gen services d out = some out' ∧
      out'.Holds (q ++ package (replyPackage gen.1 services d)) := by
  obtain ⟨out', henc, ho'⟩ := encode_sendable gen.2.bytes (h.sendable gen hd) ho
    (by rw [packageLen_reply h.msgSeq]; exact h.room)
  exact ⟨out', by rw [Tirpc.dispatch, henc]; rfl, ho'⟩

theorem replyTo_received (hm : d.msgSeq ≠ []) :
    ReplyTo gen services d (received {} (replyPackage gen.1 services d)) := by
  have ha : AnswerTo gen.1 services d _ := replyPackage_answerTo
  exact ⟨rfl, ha.msgSeq.trans (if_neg hm), rfl, rfl⟩

/-! ## Only answerable requests are answered -/

theorem parseServiceName_msgSeq {tmp : Bytes} {f : Frame} {data : TinyPbStruct} {p : Int} :
    (parseServiceName tmp f data p).Delivers fun r => r.msgSeq = data.msgSeq := by
  simp only [parseServiceName, parseErrInfo, parsePbData]
  refine .ite (fun _ => Traced.delivers_pure rfl) (fun _ => ?_)
  refine .ite (fun _ => Traced.delivers_pure rfl) (fun _ => ?_)
  refine .bind Traced.delivers_any fun n _ => ?_
  refine .ite (fun _ => Traced.delivers_pure rfl) (fun _ => ?_)
  refine .bind Traced.delivers_any fun s _ => ?_
  refine .bind Traced.delivers_any fun e _ => ?_
  refine .ite (fun _ => Traced.delivers_pure rfl) (fun _ => ?_)
  refine .bind Traced.delivers_any fun k _ => ?_
  refine .bind Traced.delivers_any fun i _ => ?_
  refine .ite (fun _ => Traced.delivers_pure rfl) (fun _ => ?_)
  exact .bind Traced.delivers_any fun pb _ => Traced.delivers_pure rfl

theorem decode_package_msgSeq {client client' : TcpBuffer} {e r : TinyPbStruct}
    (hl : packageLen e < 2147483648) (hc : client.Holds (package e))
    (h : (decode client {}).res = some (client', r)) (hs : r.decodeSucc = true) :
    e.msgSeq ≠ [] ∧ cString (e.msgSeq ++ List.replicate (50 - e.msgSeq.length) 0) = some r.msgSeq := by
  have hv := hc.valid
  have hr := hv.read_nonneg
  have hsz := hv.size_lt
  have hws := hv.write_le_size
  have hlen := hc.length_eq
  have hpl := package_length e
  have hrest := hc.rest
  rw [← List.append_nil (package e)] at hrest
  obtain ⟨f, hfirst, hlt, hparse, -⟩ := decode_accepted hv h hs
  have hf := firstFrame_head hfirst (frameAt_package hv hl hrest).2
  have hstart : f.start = client.readIndex := by rw [hf]; rfl
  have hstop : f.stop = client.readIndex + packageLen e - 1 := by rw [hf]; rfl
  rw [package_append] at hrest
  obtain ⟨-, hrest⟩ := hrest.byte hv
  obtain ⟨-, hrest⟩ := hrest.word hv ⟨by unfold packageLen; omega, hl⟩
  have hm : (e.msgSeq.length : Int) < 2147483648 := by unfold packageLen at hl; omega
  obtain ⟨hword, hrest⟩ := hrest.word hv ⟨by omega, hm⟩
  obtain ⟨hread, -⟩ := hrest.read hv
  have h5 : client.readIndex + 1 + 4 = client.readIndex + 5 := by omega
  rw [h5] at hword hread
  have htotal : 26 ≤ packageLen e := by unfold packageLen; omega
  unfold parseFrame at hparse
  dsimp only at hparse
  rw [hstart, wrap32_eq (x := client.readIndex + 5) ⟨by omega, by omega⟩, if_neg (by omega),
    Traced.res_bind, getInt32FromNetByte, Traced.res_access, hword, Option.bind_some] at hparse
  by_cases hz : (e.msgSeq.length : Int) = 0
  · rw [if_pos hz] at hparse
    cases hparse
    cases hs
  · rw [if_neg hz, wrap32_eq (x := client.readIndex + 5 + 4) ⟨by omega, by omega⟩, Traced.res_bind] at hparse
    obtain ⟨s, hcopy, hparse⟩ := Option.bind_eq_some_iff.mp hparse
    rw [copyField, Traced.res_access] at hcopy
    split at hcopy
    · rw [hread, Option.bind_some] at hcopy
      refine ⟨fun he => hz (by rw [he]; rfl), ?_⟩
      rw [hcopy, parseServiceName_msgSeq r hparse]
    · cases hcopy

theorem cString_ne_nil {m r : Bytes} {n : Nat} (hm : m ≠ []) (h0 : (0 : UInt8) ∉ m)
    (h : cString (m ++ List.replicate n 0) = some r) : r ≠ [] := by
  cases m with
  | nil => exact absurd rfl hm
  | cons c m =>
      have hc : c ≠ 0 := fun he => h0 (he ▸ .head _)
      simp only [cString] at h
      split at h
      · cases h
        simp [hc]
      · cases h

theorem numbered_msgSeq {g : Bytes} {e : TinyPbStruct} :
    (numbered g e).msgSeq = if e.msgSeq = [] then g else e.msgSeq := by
  simp only [numbered]
  split <;> rfl

theorem AnsweredOnce.answerable (hv : out.Valid) (h : AnsweredOnce gen services d out) :
    Answerable services d out := by
  have ha : AnswerTo gen.1 services d _ := replyPackage_answerTo
  obtain ⟨out', frame, hdisp, ho', hclient⟩ := h
  unfold dispatch at hdisp
  obtain ⟨⟨out₁, e'⟩, henc, rfl⟩ := Option.map_eq_some_iff.mp hdisp
  rcases encode_cases henc with ⟨-, rfl⟩ | ⟨hname, hlen, hwrite⟩
  · have hframe : frame = [] := List.self_eq_append_right.mp ho'.content_eq
    have hempty : (TcpBuffer.new 0).Holds frame := hframe ▸ TcpBuffer.new_holds (by decide)
    obtain ⟨client', r, hdec, -, hr⟩ := hclient _ hempty
    obtain ⟨f, ⟨h0, h1, -⟩, -⟩ := decode_accepted hempty.valid hdec hr.decodeSucc
    simp only [TcpBuffer.new] at h0 h1
    omega
  · have hpl := package_length (numbered gen.2.bytes (replyPackage gen.1 services d))
    have hsz : (package (numbered gen.2.bytes (replyPackage gen.1 services d))).length < 2147483648 := by
      omega
    have hroom := hv.room_of_writeToBuffer hsz hwrite
    obtain ⟨out₂, hw₂, ho₂⟩ := hv.holds.writeToBuffer hsz hroom
    cases hwrite.symm.trans hw₂
    have hframe := List.append_cancel_left (ho'.content_eq.symm.trans ho₂.content_eq)
    subst hframe
    have hc := TcpBuffer.holds_front (z := []) (by rw [List.append_nil]; exact hsz)
    obtain ⟨client', r, hdec, -, hr⟩ := hclient _ hc
    obtain ⟨hne, hcstr⟩ := decode_package_msgSeq hlen hc hdec hr.decodeSucc
    have hshort : ShortFields r := Accepted.short ⟨_, _, hc.valid, hdec, hr.decodeSucc⟩
    have hm : d.msgSeq ≠ [] := by
      intro hnil
      have hnum := ha.msgSeq
      rw [if_pos hnil] at hnum
      have h0 : (0 : UInt8) ∉ (numbered gen.2.bytes (replyPackage gen.1 services d)).msgSeq := by
        rw [numbered_msgSeq, hnum]
        split
        · exact gen.2.no_zero
        · exact gen.1.no_zero
      exact cString_ne_nil hne h0 hcstr (hr.msgSeq.trans hnil)
    have hmr : (replyPackage gen.1 services d).msgSeq ≠ [] := by
      rw [ha.msgSeq, if_neg hm]
      exact hm
    rw [numbered_of_ne_nil hmr, packageLen_reply hm] at hlen
    rw [numbered_of_ne_nil hmr, packageLen_reply hm] at hpl
    rw [numbered_of_ne_nil hmr, hpl] at hroom
    refine ⟨ha.serviceFullName ▸ hname, hm, ?_, hlen, hroom⟩
    rw [← ha.lengths hm, ← hr.errInfo]
    exact hshort.errInfo.1

theorem answeredOnce_iff (ho : out.Valid) (hd : Accepted d) :
    AnsweredOnce gen services d out ↔ Answerable services d out := by
  refine ⟨fun h => h.answerable ho, fun h => ?_⟩
  obtain ⟨out', hdisp, ho'⟩ := h.dispatch gen hd.short ho.holds
  refine ⟨out', _, hdisp, ho', fun client hc => ?_⟩
  rw [← List.append_nil (package _)] at hc
  obtain ⟨client', hdec, hc', -⟩ := decode_package (h.sendable gen hd.short) hc
  exact ⟨client', _, hdec, hc', replyTo_received h.msgSeq⟩

/-! ## Any number of requests -/

/-- A request, with the services as they handle it and the numbers that are generated for it. -/
structure Request (A M : Type) where
  gen : MsgNumber × MsgNumber
  services : ServiceMap A M
  data : TinyPbStruct

structure Served (A M : Type) where
  out : TcpBuffer
  requests : List (Request A M)

def serveNext (s : Served A M) (r : Request A M) : Option (Served A M) :=
  (dispatch r.gen r.services r.data s.out).map fun out => { out := out, requests := s.requests ++ [r] }

def ServeStart (s : Served A M) : Prop := s.out.Holds [] ∧ s.requests = []

/-- The request has been accepted and is answerable in the present state of the out buffer. -/
def ServeOk (s : Served A M) (r : Request A M) : Prop :=
  Accepted r.data ∧ Answerable r.services r.data s.out

def Request.reply (r : Request A M) : TinyPbStruct := replyPackage r.gen.1 r.services r.data

structure RepliesQueued (s : Served A M) : Prop where
  holds : s.out.Holds ((s.requests.map Request.reply).map package).flatten
  sendable : ∀ r ∈ s.requests, Sendable r.reply
  numbered : ∀ r ∈ s.requests, r.data.msgSeq ≠ []

theorem repliesQueued_step {s s' : Served A M} {r : Request A M} (h : RepliesQueued s)
    (hok : ServeOk s r) (hn : serveNext s r = some s') : RepliesQueued s' := by
  obtain ⟨hd, hans⟩ := hok
  obtain ⟨out', hdisp, ho'⟩ := hans.dispatch r.gen hd.short h.holds
  simp only [serveNext] at hn
  rw [hdisp, Option.map_some, Option.some.injEq] at hn
  subst hn
  refine ⟨?_, fun r' hr' => ?_, fun r' hr' => ?_⟩
  · rw [List.map_append, List.map_append, List.flatten_append, List.map_singleton, List.map_singleton,
      List.flatten_singleton]
    exact ho'
  · rcases List.mem_append.mp hr' with hr' | hr'
    · exact h.sendable r' hr'
    · rw [List.mem_singleton.mp hr']
      exact hans.sendable r.gen hd.short
  · rcases List.mem_append.mp hr' with hr' | hr'
    · exact h.numbered r' hr'
    · rw [List.mem_singleton.mp hr']
      exact hans.msgSeq

/-- A client that runs `Execute` hands on one reply for each request, in order, and leaves nothing. -/
def ReadsReplies (s : Served A M) (client : TcpBuffer) : Prop :=
  ∃ client' rs,
    Ends (executeTurn tinyPbCodeC fun d ds => some (ds ++ [d])) (client, []) (some (client', rs)) ∧
      client'.Holds [] ∧
      List.Forall₂ (fun (q : Request A M) r => ReplyTo q.gen q.services q.data r) s.requests rs

theorem RepliesQueued.read {s : Served A M} (h : RepliesQueued s) {client : TcpBuffer}
    (hc : client.Holds s.out.content) : ReadsReplies s client := by
  rw [h.holds.content_eq] at hc
  have hsend : ∀ d ∈ s.requests.map Request.reply, Sendable d := by
    intro d hd
    obtain ⟨r, hr, rfl⟩ := List.mem_map.mp hd
    exact h.sendable r hr
  obtain ⟨client', hends, hc'⟩ := execute_packages hsend [] hc
  refine ⟨client', _, hends, hc', ?_⟩
  rw [List.nil_append, List.map_map, List.forall₂_map_right_iff]
  exact List.forall₂_same.mpr fun r hr => replyTo_received (h.numbered r hr)

/-- A request is answered with one frame that the client decodes to its reply if and only if it is
answerable. After a run over answerable requests, a client reads one reply for each, in order. -/
theorem dispatch_replies_iff (gen : MsgNumber × MsgNumber) (services : ServiceMap A M) :
    (∀ d out, out.Valid → Accepted d →
      (AnsweredOnce gen services d out ↔ Answerable services d out)) ∧
    ∀ (s : Served A M) client, Reachable serveNext ServeStart ServeOk s → client.Holds s.out.content →
      ReadsReplies s client := by
  refine ⟨fun d out ho hd => answeredOnce_iff ho hd, fun s client hs hc => ?_⟩
  have hq : RepliesQueued s := by
    refine hs.invariant (fun s hs => ?_) fun s s' r h hok hn => repliesQueued_step h hok hn
    obtain ⟨hb, hr⟩ := hs
    refine ⟨by rw [hr]; exact hb, fun r h => ?_, fun r h => ?_⟩
    · exact absurd (hr ▸ h) List.not_mem_nil
    · exact absurd (hr ▸ h) List.not_mem_nil
  exact hq.read hc

/-! ## A request without a service name, and a request that an echo service answers -/

def noNumbers : MsgNumber × MsgNumber :=
  (⟨[], fun _ h => absurd h List.not_mem_nil⟩, ⟨[], fun _ h => absurd h List.not_mem_nil⟩)

def namelessRequest : TcpBuffer :=
  { buffer := [2, 0, 0, 0, 27, 0, 0, 0, 1, 49, 0, 0, 0, 0, 0, 0, 0, 0, 0, 0, 0, 0, 0, 0, 0, 1, 3]
    readIndex := 0, writeIndex := 27 }

/-- The error reply that `Dispatch` builds for an empty service name is refused by the encoder. -/
theorem dispatch_leaves_nameless_unanswered :
    ¬∀ (gen : MsgNumber × MsgNumber) (services : ServiceMap Unit Unit) d out, out.Valid → Accepted d →
      AnsweredOnce gen services d out := by
  intro h
  have hacc : Accepted { decodeSucc := true, pkLen := 27, msgReqLen := 1, msgSeq := [49] } :=
    ⟨namelessRequest, .new 27, by decide, by decide, rfl⟩
  have hans := h noNumbers (fun _ => none) _ (.new 64) (by decide) hacc
  exact (hans.answerable (by decide)).serviceName rfl

def echoService : Service Unit Bytes where
  findMethodByName name :=
    if name = text "echo" then
      some { requestName := text "Bytes", parseRequest := some, callMethod := fun c m => (c, m)
             serializeResponse := some, requestName_text := by decide }
    else none

def echoServices : ServiceMap Unit Bytes := fun name => if name = text "S" then some echoService else none

def echoRequest : TinyPbStruct :=
  { msgSeq := text "1", serviceFullName := text "S.echo", pbData := text "hi" }

theorem dispatch_replies_echo :
    AnsweredOnce noNumbers echoServices (received {} echoRequest) (.new 64) ∧
    ∃ out, ReadsReplies { out := out, requests := [⟨noNumbers, echoServices, received {} echoRequest⟩] } out := by
  have hsend : Sendable echoRequest :=
    ⟨by decide, by decide, by decide, ⟨by decide, by decide⟩, by decide⟩
  have hfront : ({ buffer := package echoRequest ++ [], readIndex := 0, writeIndex := 35 } : TcpBuffer).Holds
      (package echoRequest) := TcpBuffer.holds_front (by decide)
  obtain ⟨b', hdec, -⟩ := decode_package (t := []) hsend (by rw [List.append_nil]; exact hfront)
  have hacc : Accepted (received {} echoRequest) := ⟨_, _, hfront.valid, hdec, rfl⟩
  have hans : Answerable echoServices (received {} echoRequest) (.new 64) :=
    ⟨by decide, by decide, by decide, by decide, by decide⟩
  have hnew : (TcpBuffer.new 64).Holds [] := TcpBuffer.new_holds (by decide)
  obtain ⟨out, hdisp, hout⟩ := hans.dispatch noNumbers hacc.short hnew
  have hboth := dispatch_replies_iff noNumbers echoServices
  have hstart : Reachable serveNext ServeStart ServeOk (⟨.new 64, []⟩ : Served Unit Bytes) :=
    .start ⟨hnew, rfl⟩
  have hserved := hstart.step ⟨noNumbers, echoServices, received {} echoRequest⟩ ⟨hacc, hans⟩
    (by rw [serveNext, hdisp]; rfl)
  exact ⟨(hboth.1 _ _ hnew.valid hacc).mpr hans, out, hboth.2 _ _ hserved hout.valid.holds⟩

end Tirpc
