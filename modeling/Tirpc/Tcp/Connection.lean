import Tirpc.Lib.Loop
import Tirpc.Lib.Transition
import Tirpc.Tcp.Buffer

/-!
# The read side of a connection (`tcp_connection.cpp`)

`Execute` decodes what the read buffer holds, for any codec. `StreamState` puts the calls together
in which a byte stream goes through the buffer: a chunk arrives, and `Execute` runs.
-/

namespace Tirpc

open Lib

/-- A codec: the data it decodes into, and what `Decode` makes of a buffer and a fresh data object.
It has no result where the code reads outside of an object or an exception leaves it. -/
structure AbstractCodeC (D : Type) where
  genDataPtr : D
  decode : TcpBuffer → D → Option (TcpBuffer × D)
  decodeSucc : D → Bool

variable {D σ : Type}

/-- One turn of the loop in `Execute`. `handle` is what is done with decoded data: a server
dispatches it, a client stores it as a reply. -/
def executeTurn (codec : AbstractCodeC D) (handle : D → σ → Option σ) (s : TcpBuffer × σ) :
    Turn (TcpBuffer × σ) (Option (TcpBuffer × σ)) :=
  if s.1.readable > 0 then
    match codec.decode s.1 codec.genDataPtr with
    | none => .exit none
    | some (buf, data) =>
        if codec.decodeSucc data then
          match handle data s.2 with
          | none => .exit none
          | some t => .again (buf, t)
        else .exit (some (buf, s.2))
  else .exit (some s)

theorem executeTurn_again {codec : AbstractCodeC D} {handle : D → σ → Option σ} {s s' : TcpBuffer × σ}
    (h : executeTurn codec handle s = .again s') :
    0 < s.1.readable ∧ ∃ d, codec.decode s.1 codec.genDataPtr = some (s'.1, d) ∧
      codec.decodeSucc d = true ∧ handle d s.2 = some s'.2 := by
  simp only [executeTurn] at h
  split at h
  · rename_i hr
    split at h
    · cases h
    · rename_i buf d hd
      split at h
      · rename_i hs
        split at h
        · cases h
        · rename_i t ht
          cases h
          exact ⟨hr, d, hd, hs, ht⟩
      · cases h
  · cases h

theorem executeTurn_exit {codec : AbstractCodeC D} {handle : D → σ → Option σ} {s s' : TcpBuffer × σ}
    (h : executeTurn codec handle s = .exit (some s')) :
    s' = s ∨ 0 < s.1.readable ∧
      ∃ d, codec.decode s.1 codec.genDataPtr = some (s'.1, d) ∧ codec.decodeSucc d = false := by
  simp only [executeTurn] at h
  split at h
  · rename_i hr
    split at h
    · cases h
    · rename_i buf d hd
      split at h
      · split at h <;> cases h
      · rename_i hs
        cases h
        exact .inr ⟨hr, d, hd, by simpa using hs⟩
  · cases h
    exact .inl rfl

/-- `Execute` decodes `ds` from the buffer, one after the other, and leaves `b'`. -/
inductive Accepts (codec : AbstractCodeC D) : TcpBuffer → List D → TcpBuffer → Prop
  | drained {b : TcpBuffer} (hr : ¬b.readable > 0) : Accepts codec b [] b
  | refused {b b' : TcpBuffer} {d : D} (hr : b.readable > 0)
      (hd : codec.decode b codec.genDataPtr = some (b', d)) (hs : codec.decodeSucc d = false) :
      Accepts codec b [] b'
  | accepted {b b₁ b' : TcpBuffer} {d : D} {ds : List D} (hr : b.readable > 0)
      (hd : codec.decode b codec.genDataPtr = some (b₁, d)) (hs : codec.decodeSucc d = true)
      (h : Accepts codec b₁ ds b') : Accepts codec b (d :: ds) b'

theorem Accepts.unique {codec : AbstractCodeC D} {b b₁ b₂ : TcpBuffer} {ds es : List D} (h : Accepts codec b ds b₁)
    (h' : Accepts codec b es b₂) : ds = es ∧ b₁ = b₂ := by
  induction h generalizing es with
  | drained hr =>
      cases h' with
      | drained _ => exact ⟨rfl, rfl⟩
      | refused hr' _ _ => exact absurd hr' hr
      | accepted hr' _ _ _ => exact absurd hr' hr
  | refused hr hd hs =>
      cases h' with
      | drained hr' => exact absurd hr hr'
      | refused _ hd' _ =>
          cases hd.symm.trans hd'
          exact ⟨rfl, rfl⟩
      | accepted _ hd' hs' _ =>
          cases hd.symm.trans hd'
          cases hs.symm.trans hs'
  | accepted hr hd hs _ ih =>
      cases h' with
      | drained hr' => exact absurd hr hr'
      | refused _ hd' hs' =>
          cases hd.symm.trans hd'
          cases hs.symm.trans hs'
      | accepted _ hd' _ h' =>
          cases hd.symm.trans hd'
          obtain ⟨rfl, rfl⟩ := ih h'
          exact ⟨rfl, rfl⟩

/-- `Execute` hands on what it accepts, one after the other. -/
theorem execute_iff {codec : AbstractCodeC D} {handle : D → σ → Option σ} {b b' : TcpBuffer} {t t' : σ} :
    Ends (executeTurn codec handle) (b, t) (some (b', t')) ↔
      ∃ ds, Accepts codec b ds b' ∧ ds.foldlM (fun t d => handle d t) t = some t' := by
  constructor
  · rintro ⟨n, hn⟩
    induction n generalizing b t with
    | zero => cases hn
    | succ n ih =>
        simp only [runLoop] at hn
        split at hn
        · rename_i s' ht
          obtain ⟨hr, d, hd, hs, hh⟩ := executeTurn_again ht
          obtain ⟨ds, hacc, hfold⟩ := ih hn
          refine ⟨d :: ds, .accepted hr hd hs hacc, ?_⟩
          rw [List.foldlM_cons, hh]
          exact hfold
        · rename_i r ht
          cases hn
          simp only [executeTurn] at ht
          split at ht
          · rename_i hr
            split at ht
            · cases ht
            · rename_i hd
              split at ht
              · split at ht <;> cases ht
              · rename_i hs
                cases ht
                exact ⟨[], .refused hr hd (by simpa using hs), rfl⟩
          · rename_i hr
            cases ht
            exact ⟨[], .drained hr, rfl⟩
  · rintro ⟨ds, hacc, hfold⟩
    induction hacc generalizing t with
    | drained hr =>
        cases hfold
        exact (ends_exit (by rw [executeTurn, if_neg hr])).mpr rfl
    | refused hr hd hs =>
        cases hfold
        refine (ends_exit ?_).mpr rfl
        simp only [executeTurn, if_pos hr, hd, hs, Bool.false_eq_true, ↓reduceIte]
    | accepted hr hd hs _ ih =>
        rw [List.foldlM_cons] at hfold
        obtain ⟨t₁, hh, hfold⟩ := Option.bind_eq_some_iff.mp hfold
        refine (ends_again ?_).mpr (ih hfold)
        simp only [executeTurn, if_pos hr, hd, hs, ↓reduceIte, hh]

/-- A stream on its way through the read buffer: the chunks that have not arrived, whether `Execute`
is running, and the data handed on so far. -/
structure StreamState (D : Type) where
  buf : TcpBuffer
  pending : List Bytes
  executing : Bool
  dispatched : List D
  deriving DecidableEq, Repr

inductive StreamStep where
  /-- The next chunk arrives; `buf` is the buffer with the chunk appended. -/
  | arrive (buf : TcpBuffer)
  /-- `Execute` makes its next turn. -/
  | turn

/-- An append may grow or compact the vector, and leave any bytes outside of the indices. -/
def Appends (b : TcpBuffer) (c : Bytes) (b' : TcpBuffer) : Prop := b'.Valid ∧ b'.content = b.content ++ c

instance (b : TcpBuffer) (c : Bytes) (b' : TcpBuffer) : Decidable (Appends b c b') :=
  inferInstanceAs (Decidable (_ ∧ _))

def streamNext (codec : AbstractCodeC D) (s : StreamState D) : StreamStep → Option (StreamState D)
  | .arrive buf =>
      match s.pending with
      | [] => none
      | c :: cs =>
          if s.executing = false ∧ Appends s.buf c buf then
            some { buf := buf, pending := cs, executing := true, dispatched := s.dispatched }
          else none
  | .turn =>
      if s.executing then
        match executeTurn codec (fun d ds => some (ds ++ [d])) (s.buf, s.dispatched) with
        | .again (buf, ds) => some { s with buf := buf, dispatched := ds }
        | .exit none => none
        | .exit (some (buf, ds)) => some { s with buf := buf, dispatched := ds, executing := false }
      else none

theorem streamNext_decoded (codec : AbstractCodeC D) {s : StreamState D} {b' : TcpBuffer} {d : D}
    (he : s.executing = true) (hr : 0 < s.buf.readable)
    (hd : codec.decode s.buf codec.genDataPtr = some (b', d)) :
    streamNext codec s .turn =
      some (if codec.decodeSucc d then { s with buf := b', dispatched := s.dispatched ++ [d] }
        else { s with buf := b', executing := false }) := by
  simp only [streamNext, executeTurn, he, ↓reduceIte, if_pos hr, hd]
  cases codec.decodeSucc d <;> rfl

theorem streamNext_arrive {codec : AbstractCodeC D} {s s' : StreamState D} {buf : TcpBuffer}
    (h : streamNext codec s (.arrive buf) = some s') :
    ∃ c cs, s.pending = c :: cs ∧ s.executing = false ∧ Appends s.buf c buf ∧
      s' = { s with buf := buf, pending := cs, executing := true } := by
  simp only [streamNext] at h
  split at h
  · cases h
  · rename_i c cs hp
    split at h
    · rename_i hc
      cases h
      exact ⟨c, cs, hp, hc.1, hc.2, rfl⟩
    · cases h

/-- The effect of a turn: a call of `Decode`, whose data are handed on if it succeeds, or the return
of `Execute` from an empty buffer. -/
theorem streamNext_turn {codec : AbstractCodeC D} {s s' : StreamState D}
    (h : streamNext codec s .turn = some s') :
    (∃ b' d, s.executing = true ∧ 0 < s.buf.readable ∧
      codec.decode s.buf codec.genDataPtr = some (b', d) ∧
      (codec.decodeSucc d = true ∧ s' = { s with buf := b', dispatched := s.dispatched ++ [d] } ∨
        codec.decodeSucc d = false ∧ s' = { s with buf := b', executing := false })) ∨
    s.executing = true ∧ s.buf.readable ≤ 0 ∧ s' = { s with executing := false } := by
  simp only [streamNext, executeTurn] at h
  split at h
  · rename_i he
    by_cases hr : s.buf.readable > 0
    · rw [if_pos hr] at h
      cases hd : codec.decode s.buf codec.genDataPtr with
      | none => rw [hd] at h; cases h
      | some r =>
          obtain ⟨b', d⟩ := r
          rw [hd] at h
          cases hs : codec.decodeSucc d with
          | true =>
              simp only [hs, ↓reduceIte, Option.some.injEq] at h
              exact .inl ⟨b', d, he, hr, rfl, .inl ⟨hs, h.symm⟩⟩
          | false =>
              simp only [hs, Bool.false_eq_true, ↓reduceIte, Option.some.injEq] at h
              exact .inl ⟨b', d, he, hr, rfl, .inr ⟨hs, h.symm⟩⟩
    · rw [if_neg hr] at h
      simp only [Option.some.injEq] at h
      exact .inr ⟨he, by omega, h.symm⟩
  · cases h

def StreamStart (chunks : List Bytes) (s : StreamState D) : Prop :=
  s.buf.Holds [] ∧ s.pending = chunks ∧ s.executing = false ∧ s.dispatched = []

def StreamState.Done (s : StreamState D) : Prop := s.pending = [] ∧ s.executing = false

end Tirpc
