import Tirpc.Rpc.Lemmas.Stream

/-!
# What `Decode` takes off the buffer

The count is that of the frame, and it is taken from the read index. A call therefore consumes its
frame exactly when the frame stands at the read index, and a run whose calls all find their frame
there cuts the stream into frames.
-/

namespace Tirpc

open Lib

variable {b b' : TcpBuffer} {d : TinyPbStruct}

def FrameAtHead (b : TcpBuffer) : Prop := ∃ f, frameAt b.buffer b.writeIndex b.readIndex = some f

theorem decode_consumption (hv : b.Valid) (h : (decode b {}).res = some (b', d)) (hs : d.decodeSucc) :
    ∃ f, FirstFrame b.buffer b.writeIndex b.readIndex (b.writeIndex - b.readIndex).toNat (some f) ∧
      (b'.content = window b.buffer (f.stop + 1) b.writeIndex ↔ FrameAtHead b) := by
  have hr := hv.read_nonneg
  have hws := hv.write_le_size
  have hlen := hv.content_length
  simp only [TcpBuffer.readable] at hlen
  obtain ⟨f, hfirst, hlt, -, hholds⟩ := decode_accepted hv h hs
  obtain ⟨h0, h1, hf, -⟩ := id hfirst
  have hstop := (frameAt_eq_some hf).2.2.2.2.2.1
  have hafter := window_drop (v := b.buffer) (w := b.writeIndex) hr
    (show 0 ≤ f.stop + 1 - b.readIndex by omega)
  rw [show b.readIndex + (f.stop + 1 - b.readIndex) = f.stop + 1 by omega] at hafter
  refine ⟨f, hfirst, ?_⟩
  rw [hholds.content_eq, hafter]
  constructor
  · intro heq
    have hcount := congrArg List.length heq
    rw [List.length_drop, show (window b.buffer b.readIndex b.writeIndex) = b.content from rfl,
      List.length_drop] at hcount
    have hstart : f.start = b.readIndex := by omega
    exact ⟨f, hstart ▸ hf⟩
  · rintro ⟨g, hg⟩
    have hstart : f.start = b.readIndex := by
      rw [firstFrame_head hfirst hg]
      exact (frameAt_eq_some hg).1
    rw [hstart]
    rfl

/-! ## Runs -/

/-- When `Decode` is called and a frame is among the readable bytes, one stands at their front, and its
length is not negative. -/
def HeadAligned (s : StreamState TinyPbStruct) : StreamStep → Prop
  | .arrive _ => True
  | .turn =>
      (∃ k, s.buf.readIndex ≤ k ∧ k < s.buf.writeIndex ∧
        frameAt s.buf.buffer s.buf.writeIndex k ≠ none) →
      ∃ f, frameAt s.buf.buffer s.buf.writeIndex s.buf.readIndex = some f ∧ 0 ≤ f.pkLen

/-- The bytes are a frame, and `o` is what `Decode` makes of it: data, or nothing for a package that
it drops. -/
def FrameBytes (s : Bytes) (o : Option TinyPbStruct) : Prop :=
  ∃ (b : TcpBuffer) (f : Frame) (t : Bytes) (d : TinyPbStruct), b.Holds (s ++ t) ∧
    frameAt b.buffer b.writeIndex b.readIndex = some f ∧ f.pkLen = s.length ∧
    (parseFrame b.buffer f {}).res = some d ∧ o = if d.decodeSucc then some d else none

/-- The stream is cut into frames, each consumed by one call, in front of what is readable and what
has not arrived; the data handed on are those of the accepted frames, in order. -/
structure CutIntoFrames (stream : Bytes) (segs : List (Bytes × Option TinyPbStruct))
    (s : StreamState TinyPbStruct) : Prop where
  valid : s.buf.Valid
  stream_eq : (segs.map Prod.fst).flatten ++ (s.buf.content ++ s.pending.flatten) = stream
  dispatched_eq : s.dispatched = segs.filterMap Prod.snd
  frames : ∀ sg ∈ segs, FrameBytes sg.1 sg.2

theorem decode_aligned (hv : b.Valid)
    (hal : (∃ k, b.readIndex ≤ k ∧ k < b.writeIndex ∧ frameAt b.buffer b.writeIndex k ≠ none) →
      ∃ f, frameAt b.buffer b.writeIndex b.readIndex = some f ∧ 0 ≤ f.pkLen)
    (h : (decode b {}).res = some (b', d)) :
    b' = b ∧ d = {} ∨ ∃ s t, b.content = s ++ t ∧ b'.Holds t ∧
      FrameBytes s (if d.decodeSucc then some d else none) := by
  have hr := hv.read_nonneg
  have hsz := hv.size_lt
  have hws := hv.write_le_size
  have hlen := hv.content_length
  simp only [TcpBuffer.readable] at hlen
  rcases decode_cases h with ⟨-, rfl, rfl⟩ | ⟨f, hfirst, hrec, hparse⟩
  · exact .inl ⟨rfl, rfl⟩
  · obtain ⟨h0, h1, hf, -⟩ := id hfirst
    obtain ⟨g, hg, hpk⟩ := hal ⟨f.start, h0, by omega, by rw [hf]; simp⟩
    have hfg := firstFrame_head hfirst hg
    subst hfg
    obtain ⟨hstart, -, -, hword, hstop, hlt, hend⟩ := frameAt_eq_some hg
    have hbound := byteAt_bounds hend
    have hpk32 := wordAt_isInt32 hword
    simp only [IsInt32] at hpk32
    have hcount : f.stop + 1 - f.start = f.pkLen := by
      unfold wrap32 at hstop; omega
    rw [hcount, wrap32_eq ⟨by omega, by omega⟩] at hrec
    obtain ⟨b₁, hb₁, hholds, -⟩ := hv.holds.recycleRead hpk (by omega)
    rw [hrec, Option.some.injEq] at hb₁
    subst hb₁
    refine .inr ⟨b.content.take f.pkLen.toNat, b.content.drop f.pkLen.toNat,
      (List.take_append_drop _ _).symm, hholds, b, f, b.content.drop f.pkLen.toNat, d, ?_, hg, ?_,
      hparse, rfl⟩
    · rw [List.take_append_drop]; exact hv.holds
    · rw [List.length_take]; omega

theorem CutIntoFrames.consume {stream : Bytes} {segs : List (Bytes × Option TinyPbStruct)}
    {s s' : StreamState TinyPbStruct} {x t : Bytes} {o : Option TinyPbStruct}
    (h : CutIntoFrames stream segs s) (hc : s.buf.content = x ++ t) (hb : s'.buf.Holds t)
    (hf : FrameBytes x o) (hp : s'.pending = s.pending)
    (hd : s'.dispatched = s.dispatched ++ o.toList) : CutIntoFrames stream (segs ++ [(x, o)]) s' where
  valid := hb.valid
  stream_eq := by
    rw [← h.stream_eq, hc, hb.content_eq, hp, List.map_append, List.flatten_append]
    simp only [List.map_cons, List.map_nil, List.flatten_cons, List.flatten_nil, List.append_nil,
      List.append_assoc]
  dispatched_eq := by
    rw [hd, h.dispatched_eq, List.filterMap_append]
    cases o <;> rfl
  frames := by
    intro sg hsg
    rcases List.mem_append.mp hsg with hsg | hsg
    · exact h.frames sg hsg
    · rw [List.mem_singleton.mp hsg]
      exact hf

theorem cutIntoFrames_step {stream : Bytes} {s s' : StreamState TinyPbStruct} {l : StreamStep}
    (h : ∃ segs, CutIntoFrames stream segs s) (hok : HeadAligned s l)
    (hn : streamNext tinyPbCodeC s l = some s') : ∃ segs, CutIntoFrames stream segs s' := by
  obtain ⟨segs, h⟩ := h
  cases l with
  | arrive buf =>
      obtain ⟨c, cs, hp, -, happ, rfl⟩ := streamNext_arrive hn
      refine ⟨segs, happ.1, ?_, h.dispatched_eq, h.frames⟩
      rw [← h.stream_eq, hp]
      simp only [happ.2, List.flatten_cons, List.append_assoc]
  | turn =>
      rcases streamNext_turn hn with ⟨b', d, -, -, hdec, hs⟩ | ⟨-, -, rfl⟩
      · rcases decode_aligned h.valid hok hdec with ⟨rfl, rfl⟩ | ⟨sg, t, hc, hb, hf⟩
        · rcases hs with ⟨hd, -⟩ | ⟨-, rfl⟩
          · cases hd
          · exact ⟨segs, h.valid, h.stream_eq, h.dispatched_eq, h.frames⟩
        · rcases hs with ⟨hd, rfl⟩ | ⟨hd, rfl⟩
          · rw [if_pos (show d.decodeSucc = true from hd)] at hf
            exact ⟨_, h.consume hc hb hf rfl rfl⟩
          · rw [show d.decodeSucc = false from hd, if_neg Bool.false_ne_true] at hf
            exact ⟨_, h.consume hc hb hf rfl (List.append_nil _).symm⟩
      · exact ⟨segs, h.valid, h.stream_eq, h.dispatched_eq, h.frames⟩

/-- A successful call consumes its frame, and what lies before it, exactly when nothing lies before it;
a run that decodes at frames only cuts the stream into frames, and dispatches each accepted one once. -/
theorem decode_consumes_iff (chunks : List Bytes) :
    (∀ b b' d, b.Valid → (decode b {}).res = some (b', d) → d.decodeSucc →
      ∃ f, FirstFrame b.buffer b.writeIndex b.readIndex (b.writeIndex - b.readIndex).toNat (some f) ∧
        (b'.content = window b.buffer (f.stop + 1) b.writeIndex ↔ FrameAtHead b)) ∧
    ∀ s, Reachable (streamNext tinyPbCodeC) (StreamStart chunks) HeadAligned s →
      ∃ segs, CutIntoFrames chunks.flatten segs s := by
  refine ⟨fun b b' d hv h hs => decode_consumption hv h hs, fun s hs => ?_⟩
  refine hs.invariant (I := fun s => ∃ segs, CutIntoFrames chunks.flatten segs s) ?_ ?_
  · rintro s ⟨hb, rfl, -, hd⟩
    exact ⟨[], hb.valid, by rw [hb.content_eq]; rfl, hd, fun _ h => absurd h List.not_mem_nil⟩
  · intro s s' l h hok hn
    exact cutIntoFrames_step h hok hn

/-- As many bytes of junk in front of the package as it has itself. -/
def pingBehindJunk : TcpBuffer :=
  { buffer := List.replicate 28 7 ++ package ping, readIndex := 0, writeIndex := 56 }

/-- The package is readable once more after the call that has decoded it. -/
theorem decode_leaves_frame : ¬∀ b b' d f, b.Valid → (decode b {}).res = some (b', d) → d.decodeSucc →
    FirstFrame b.buffer b.writeIndex b.readIndex (b.writeIndex - b.readIndex).toNat (some f) →
      b'.content = window b.buffer (f.stop + 1) b.writeIndex := by
  intro h
  have hdec : (decode pingBehindJunk {}).res =
      some ({ buffer := package ping ++ List.replicate 28 0, readIndex := 0, writeIndex := 28 },
        received {} ping) := by decide
  have hscan : (findFrame pingBehindJunk.buffer 56 56 0).res = some (some (frameOf ping 28)) := by
    decide
  have hleft := h pingBehindJunk _ _ _ (by decide) hdec rfl (findFrame_first hscan)
  exact absurd hleft (by decide)

theorem decode_consumes_iff_ping :
    (∃ f, FirstFrame (package ping) 28 0 28 (some f) ∧
      ((TcpBuffer.new 28).content = window (package ping) (f.stop + 1) 28 ↔ FrameAtHead pingReceived)) ∧
    ∃ segs, CutIntoFrames [package ping].flatten segs
      { buf := .new 28, pending := [], executing := true, dispatched := [received {} ping] } := by
  have harrive : Reachable (streamNext tinyPbCodeC) (StreamStart [package ping]) HeadAligned
      ⟨pingReceived, [], true, []⟩ :=
    .step (.start (streamStart_new _ (by decide))) (.arrive pingReceived) trivial ping_arrive
  have hturn : Reachable (streamNext tinyPbCodeC) (StreamStart [package ping]) HeadAligned
      ⟨.new 28, [], true, [received {} ping]⟩ :=
    .step harrive .turn (fun _ => ⟨_, pingReceived_frame, by decide⟩) (ping_turn rfl rfl)
  have hboth := decode_consumes_iff [package ping]
  exact ⟨hboth.1 _ _ _ (by decide) pingReceived_decode rfl, hboth.2 _ hturn⟩

end Tirpc
