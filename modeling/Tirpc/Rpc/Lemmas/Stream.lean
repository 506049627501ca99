import Tirpc.Rpc.Lemmas.RoundTrip
import Tirpc.Tcp.Connection

/-!
# TinyPB packages in a stream
-/

namespace Tirpc

open Lib

def tinyPbCodeC : AbstractCodeC TinyPbStruct where
  genDataPtr := {}
  decode buf data := (decode buf data).res
  decodeSucc data := data.decodeSucc

variable {b b' : TcpBuffer} {d : TinyPbStruct}

/-- What a call of `Decode` that returns has done: it found nothing, or it took the length of the
first frame off the buffer and parsed that frame. -/
theorem decode_cases {data : TinyPbStruct} (h : (decode b data).res = some (b', d)) :
    FirstFrame b.buffer b.writeIndex b.readIndex (b.writeIndex - b.readIndex).toNat none ∧
        b' = b ∧ d = data ∨
      ∃ f, FirstFrame b.buffer b.writeIndex b.readIndex (b.writeIndex - b.readIndex).toNat (some f) ∧
        b.recycleRead (wrap32 (f.stop + 1 - f.start)) = some b' ∧
        (parseFrame b.buffer f data).res = some d := by
  unfold decode at h
  rw [Traced.res_bind] at h
  obtain ⟨r, hr, h⟩ := Option.bind_eq_some_iff.mp h
  have hfirst := findFrame_first hr
  cases r with
  | none =>
      cases h
      exact .inl ⟨hfirst, rfl, rfl⟩
  | some f =>
      dsimp only at h
      rw [Traced.res_bind, Traced.res_lift] at h
      obtain ⟨b₁, hb₁, h⟩ := Option.bind_eq_some_iff.mp h
      rw [Traced.res_bind] at h
      obtain ⟨d₁, hd₁, h⟩ := Option.bind_eq_some_iff.mp h
      cases h
      exact .inr ⟨f, hfirst, hb₁, hd₁⟩

theorem parseFrame_accepted {f : Frame} {data : TinyPbStruct}
    (h : (parseFrame b.buffer f data).res = some d) (hs : d.decodeSucc) (h0 : 0 ≤ f.start)
    (h1 : f.start < 2147483648) : f.start + 5 < f.stop := by
  unfold parseFrame at h
  dsimp only at h
  by_cases hd : wrap32 (f.start + 5) ≥ f.stop
  · rw [if_pos hd] at h
    cases h
    cases hs
  · rw [if_neg hd, Traced.res_bind] at h
    obtain ⟨m, hm, -⟩ := Option.bind_eq_some_iff.mp h
    have := wordAt_bounds hm
    simp only [wrap32] at this hd
    omega

/-- A call that succeeds takes as many bytes from the front as its frame has. -/
theorem decode_accepted (hv : b.Valid) (h : (decode b {}).res = some (b', d)) (hs : d.decodeSucc) :
    ∃ f, FirstFrame b.buffer b.writeIndex b.readIndex (b.writeIndex - b.readIndex).toNat (some f) ∧
      f.start + 5 < f.stop ∧ (parseFrame b.buffer f {}).res = some d ∧
      b'.Holds (b.content.drop (f.stop + 1 - f.start).toNat) := by
  have hr := hv.read_nonneg
  have hsz := hv.size_lt
  have hws := hv.write_le_size
  have hlen := hv.content_length
  simp only [TcpBuffer.readable] at hlen
  rcases decode_cases h with ⟨-, -, rfl⟩ | ⟨f, hfirst, hrec, hparse⟩
  · cases hs
  · obtain ⟨h0, h1, hf, -⟩ := id hfirst
    have hstop := (frameAt_eq_some hf).2.2.2.2.2.1
    have hlt := parseFrame_accepted hparse hs (by omega) (by omega)
    rw [wrap32_eq (x := f.stop + 1 - f.start) ⟨by omega, by omega⟩] at hrec
    obtain ⟨b₁, hb₁, hholds, -⟩ := hv.holds.recycleRead (k := f.stop + 1 - f.start) (by omega) (by omega)
    rw [hrec, Option.some.injEq] at hb₁
    subst hb₁
    exact ⟨f, hfirst, hlt, hparse, hholds⟩

/-- `Execute` hands on the packages that are readable, one after the other. -/
theorem execute_packages {L : List TinyPbStruct} (hL : ∀ d ∈ L, Sendable d) (ds : List TinyPbStruct)
    (hb : b.Holds (L.map package).flatten) :
    ∃ b', Ends (executeTurn tinyPbCodeC fun d ds => some (ds ++ [d])) (b, ds)
      (some (b', ds ++ L.map (received {}))) ∧ b'.Holds [] := by
  induction L generalizing b ds with
  | nil =>
      have hr : ¬b.readable > 0 := by
        rw [hb.readable_eq]
        simp
      refine ⟨b, (ends_exit (by rw [executeTurn, if_neg hr])).mpr ?_, hb⟩
      rw [List.map_nil, List.append_nil]
  | cons d L ih =>
      rw [List.map_cons, List.flatten_cons] at hb
      have hr : b.readable > 0 := by
        have := package_length d
        have := hb.readable_eq
        rw [List.length_append] at this
        unfold packageLen at *
        omega
      obtain ⟨b₁, hdec, hb₁, -⟩ := decode_package (hL d (.head _)) hb
      obtain ⟨b', hends, hb'⟩ := ih (fun e he => hL e (.tail _ he)) (ds ++ [received {} d]) hb₁
      have hturn : executeTurn tinyPbCodeC (fun d ds => some (ds ++ [d])) (b, ds) =
          .again (b₁, ds ++ [received {} d]) := by
        rw [executeTurn, if_pos hr, show tinyPbCodeC.decode b tinyPbCodeC.genDataPtr = _ from hdec]
        rfl
      refine ⟨b', (ends_again hturn).mpr ?_, hb'⟩
      rw [List.append_assoc] at hends
      exact hends

/-! ## A package of 28 bytes, and a buffer that it fills -/

def ping : TinyPbStruct := { msgSeq := text "1", serviceFullName := text "S" }

def pingReceived : TcpBuffer := { buffer := package ping, readIndex := 0, writeIndex := 28 }

theorem pingReceived_frame : frameAt (package ping) 28 0 = some (frameOf ping 0) := by decide

theorem pingReceived_decode : (decode pingReceived {}).res = some (.new 28, received {} ping) := by
  decide

theorem ping_turn {s : StreamState TinyPbStruct} (hb : s.buf = pingReceived) (he : s.executing = true) :
    streamNext tinyPbCodeC s .turn =
      some { s with buf := .new 28, dispatched := s.dispatched ++ [received {} ping] } := by
  rw [streamNext_decoded tinyPbCodeC he (by rw [hb]; decide) (hb ▸ pingReceived_decode)]
  rfl

theorem ping_arrive : streamNext tinyPbCodeC ⟨.new 28, [package ping], false, []⟩ (.arrive pingReceived) =
    some ⟨pingReceived, [], true, []⟩ := by
  have happ : Appends (.new 28) (package ping) pingReceived := by decide
  simp only [streamNext, true_and, if_pos happ]

end Tirpc
