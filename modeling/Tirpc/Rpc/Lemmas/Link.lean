import Tirpc.Rpc.Link

/-!
# Packages on a link

The bytes in the two buffers and on the wire are the packages that have not been handed on.
-/

namespace Tirpc

open Lib

variable {l l' : Link} {rest : List TinyPbStruct} {d : TinyPbStruct} {σ : Type} {t t' : σ}
  {handle : TinyPbStruct → σ → Option σ}

/-- The packages of `rest` are on their way. Behind `Execute`, the read buffer does not hold a whole one. -/
structure Conveys (l : Link) (rest : List TinyPbStruct) : Prop where
  out : l.out.Valid
  buf : l.buf.Valid
  bytes : l.buf.content ++ l.wire ++ l.out.content = (rest.map package).flatten
  sendable : ∀ d ∈ rest, Sendable d
  waiting : l.place = .idle → ∀ d ds, rest = d :: ds → l.buf.content.length < (package d).length

namespace Conveys

theorem start (h : l.Start) : Conveys l [] where
  out := h.1.valid
  buf := h.2.2.1.valid
  bytes := by rw [h.1.content_eq, h.2.1, h.2.2.1.content_eq]; rfl
  sendable d hd := absurd hd List.not_mem_nil
  waiting _ d ds hd := by cases hd

theorem nothing_left (h : Conveys l []) : l.buf.content = [] := by
  have hbytes := h.bytes
  rw [List.map_nil, List.flatten_nil, List.append_eq_nil_iff, List.append_eq_nil_iff] at hbytes
  exact hbytes.1.1

/-- The sending side encodes one more package. -/
theorem append (h : Conveys l rest) (hd : Sendable d) {out : TcpBuffer} (hout : out.Holds (l.out.content ++ package d)) :
    Conveys { l with out := out } (rest ++ [d]) where
  out := hout.valid
  buf := h.buf
  bytes := by
    rw [hout.content_eq, ← List.append_assoc, h.bytes, List.map_append, List.flatten_append, List.map_singleton,
      List.flatten_singleton]
  sendable e he := by
    rcases List.mem_append.mp he with he | he
    · exact h.sendable e he
    · exact List.mem_singleton.mp he ▸ hd
  waiting hidle e es he := by
    cases rest with
    | nil =>
        show l.buf.content.length < _
        rw [h.nothing_left]
        exact package_pos e
    | cons e' es' =>
        obtain ⟨rfl, -⟩ := List.cons.inj he
        exact h.waiting hidle e' es' rfl

theorem output {env : OutputEnv} (h : Conveys l rest)
    (hcall : env.state 0 = .connected → 0 ≤ sendHook env 0 l.out.readable) (hl : l.output env = some l') :
    Conveys l' rest := by
  unfold Link.output at hl
  by_cases hidle : env.state 0 ≠ .connected ∨ l.out.readable = 0
  · have hturn : outputTurn env { buf := l.out } = .exit (some { buf := l.out }) := outputTurn_idle hidle
    rw [hturn] at hl
    obtain rfl := Option.some.inj hl
    refine ⟨h.out, h.buf, ?_, h.sendable, h.waiting⟩
    show l.buf.content ++ (l.wire ++ []) ++ l.out.content = _
    rw [List.append_nil]
    exact h.bytes
  · obtain ⟨hstate, hreadable⟩ := not_or.mp hidle
    have hstate : env.state 0 = .connected := not_not.mp hstate
    have hlen := h.out.content_length
    have hne : l.out.content ≠ [] := fun hnil => hreadable (by rw [← hlen, hnil]; rfl)
    have hrt := hcall hstate
    rw [← hlen] at hrt
    obtain ⟨p, hp, hturn⟩ := outputTurn_sent (s := { buf := l.out }) h.out.holds hne hstate hrt
    have hafter : outputAfter (outputTurn env { buf := l.out }) = some {
        buf := p, calls := 1, sent := l.out.content.take (sendHook env 0 l.out.content.length).toNat } := by
      rw [hturn]
      dsimp only
      split
      · rfl
      · split <;> rfl
    rw [hafter] at hl
    obtain rfl := Option.some.inj hl
    refine ⟨hp.valid, h.buf, ?_, h.sendable, h.waiting⟩
    rw [hp.content_eq, ← List.append_assoc, List.append_assoc, List.take_append_drop]
    exact h.bytes

/-- Bytes go from the wire to the read buffer. -/
theorem receive {c : Bytes} {buf : TcpBuffer} {place : LinkPlace} (h : Conveys l rest) (hc : c <+: l.wire)
    (hbuf : buf.Holds (l.buf.content ++ c)) (hplace : place ≠ .idle) :
    Conveys { l with buf := buf, wire := l.wire.drop c.length, place := place } rest where
  out := h.out
  buf := hbuf.valid
  bytes := by
    obtain ⟨wire, hwire⟩ := hc
    rw [hbuf.content_eq, ← hwire, List.drop_left, List.append_assoc l.buf.content c wire, hwire]
    exact h.bytes
  sendable := h.sendable
  waiting hidle := absurd hidle hplace

theorem input {env : InputEnv} (h : Conveys l rest) (hl : l.input env = some l') : Conveys l' rest := by
  obtain ⟨⟨-, hprefix⟩, hl⟩ := Option.ite_none_right_eq_some.mp hl
  have hkeeps : ∀ {buf}, bufAfter (inputTurn env { buf := l.buf, calls := 0 }) = some buf →
      buf.Holds (l.buf.content ++ turnReceived env { buf := l.buf, calls := 0 }) := fun hb =>
    turn_keeps_received (s := { buf := l.buf, calls := 0 }) h.buf hb
  split at hl
  case h_1 s hturn =>
    rw [hturn] at hkeeps
    obtain rfl := Option.some.inj hl
    exact h.receive hprefix (hkeeps rfl) (by decide)
  case h_2 buf hturn =>
    rw [hturn] at hkeeps
    obtain rfl := Option.some.inj hl
    exact h.receive hprefix (hkeeps rfl) (by decide)
  case h_3 buf hturn =>
    rw [hturn] at hkeeps
    obtain rfl := Option.some.inj hl
    exact h.receive hprefix (hkeeps rfl) (by decide)
  case h_4 => cases hl

/-- A turn of `Execute` hands on the first package, or finds that none is there as a whole. -/
theorem execute (h : Conveys l rest) (hset : 0 < l.buf.readable → Settled l.buf)
    (hl : l.execute handle t = some (l', t')) :
    (∃ d ds, rest = d :: ds ∧ 0 < l.buf.readable ∧ (∃ b, (decode l.buf {}).res = some (b, received {} d)) ∧
      handle (received {} d) t = some t' ∧ Conveys l' ds) ∨
    t' = t ∧ Conveys l' rest := by
  have hlen := h.buf.content_length
  unfold Link.execute at hl
  split at hl
  case h_2 => cases hl
  case h_1 hplace =>
    by_cases hr : 0 < l.buf.readable
    · cases rest with
      | nil =>
          rw [h.nothing_left] at hlen
          rw [← hlen] at hr
          exact absurd hr (by decide)
      | cons d ds =>
          have hbytes := h.bytes
          rw [List.map_cons, List.flatten_cons, List.append_assoc] at hbytes
          obtain ⟨b, content, hcontent, hafter, hdec, hb⟩ | ⟨hlt, hstray⟩ :=
            decode_front h.buf (h.sendable d (.head _)) (hset hr) hbytes
          · have hdecode : tinyPbCodeC.decode l.buf tinyPbCodeC.genDataPtr = some (b, received {} d) := hdec
            simp only [executeTurn, if_pos hr, hdecode, show tinyPbCodeC.decodeSucc (received {} d) = true from rfl,
              if_true] at hl
            cases hhandle : handle (received {} d) t with
            | none =>
                rw [hhandle] at hl
                cases hl
            | some t₁ =>
                rw [hhandle] at hl
                cases hl
                refine .inl ⟨d, ds, rfl, hr, ⟨b, hdec⟩, hhandle, h.out, hb.valid, ?_, ?_, ?_⟩
                · rw [hb.content_eq, List.append_assoc]
                  exact hafter
                · exact fun e he => h.sendable e (.tail _ he)
                · exact fun hidle => absurd (hplace.symm.trans hidle) (by decide)
          · obtain ⟨b, e, hdec, hfail, hb⟩ := decode_noStray h.buf hstray
            have hdecode : tinyPbCodeC.decode l.buf tinyPbCodeC.genDataPtr = some (b, e) := hdec
            simp only [executeTurn, if_pos hr, hdecode, show tinyPbCodeC.decodeSucc e = false from hfail,
              Bool.false_eq_true, if_false] at hl
            cases hl
            refine .inr ⟨rfl, h.out, hb.valid, ?_, h.sendable, fun _ e es he => ?_⟩
            · rw [hb.content_eq]
              exact h.bytes
            · obtain ⟨rfl, -⟩ := List.cons.inj he
              show b.content.length < _
              rw [hb.content_eq]
              exact hlt
    · simp only [executeTurn, if_neg hr] at hl
      cases hl
      refine .inr ⟨rfl, h.out, h.buf, h.bytes, h.sendable, fun _ e es _ => ?_⟩
      show l.buf.content.length < _
      rw [h.buf.content_nil hr]
      exact package_pos e

/-- When the link is quiet, every package has been handed on. -/
theorem all_handed_on (h : Conveys l rest) (hquiet : l.Quiet) : rest = [] := by
  obtain ⟨hout, hwire, hidle⟩ := hquiet
  cases rest with
  | nil => rfl
  | cons d ds =>
      have hbytes := congrArg List.length h.bytes
      have hlt := h.waiting hidle d ds rfl
      rw [hout, hwire, List.append_nil, List.append_nil, List.map_cons, List.flatten_cons, List.length_append] at hbytes
      omega

end Conveys

end Tirpc
