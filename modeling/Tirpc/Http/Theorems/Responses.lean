import Tirpc.Http.Theorems.Segmentation
import Tirpc.Http.Theorems.Servlets
import Tirpc.Tcp.Theorems.Output

/-!
# One response for each request

`Dispatch` drops a request without a path, and it shuts the connection down before the response is encoded:
`Output` then sends nothing at all. Everything else is answered, if the responses find room.
-/

namespace Tirpc

open Lib TcpBuffer HttpCodeC

variable {ρ α : Type} [DecidableEq ρ]

/-- An iteration of the server loop behind `Input`, on an open connection: every request that is accepted has
one response encoded, the kernel takes what was in the write buffer and then these responses, and the
socket has not been shut down by then. -/
def RespondsToAll (env : HttpEnv) (d : HttpDispatcher ρ) (w : Servlets ρ α) (b out : TcpBuffer) : Prop :=
  ∃ reqs b' conn o, Accepts httpCodeC b reqs b' ∧
    Ends (executeTurn httpCodeC (d.dispatch env)) (b, { servlets := w, writeBuffer := out }) (some (b', conn)) ∧
    Output (sendsAll conn.state) false conn.writeBuffer (some o) ∧ conn.shutDown = false ∧
    conn.encoded.map Prod.fst = reqs ∧ o.sent = out.content ++ (conn.encoded.map fun p => httpRes p.2).flatten

/-! ## What is sent -/

theorem output_sendsAll (state : TcpConnectionState) {b : TcpBuffer} {q : Bytes} (h : b.Holds q) :
    ∃ o, (∀ r, Output (sendsAll state) false b r ↔ r = some o) ∧ o.sent = if state = .connected then q else [] := by
  have hturn : ∀ o, outputTurn (sendsAll state) { buf := b } = .exit (some o) →
      ∀ r, Output (sendsAll state) false b r ↔ r = some o := fun o ho r => ends_exit ho
  by_cases hidle : state ≠ .connected ∨ b.readable = 0
  · refine ⟨{ buf := b }, hturn _ (outputTurn_idle hidle), ?_⟩
    split
    · rename_i hs
      have hr := h.readable_eq
      have hnil : q = [] := List.eq_nil_of_length_eq_zero (by
        have := hidle.resolve_left (fun hne => hne hs)
        omega)
      exact hnil.symm
    · rfl
  · simp only [ne_eq, not_or, not_not] at hidle
    obtain ⟨rfl, hr⟩ := hidle
    have hq : q ≠ [] := by
      rintro rfl
      exact hr h.readable_eq
    have hall : sendHook (sendsAll .connected) ({ buf := b } : OutputState).calls q.length = q.length := by
      simp [sendHook, sendsAll]
    have hstate : (sendsAll .connected).state ({ buf := b } : OutputState).calls = .connected := rfl
    have hb : ({ buf := b } : OutputState).buf.Holds q := h
    obtain ⟨p, hp, e⟩ := outputTurn_sent hb hq hstate (by rw [hall]; omega)
    rw [hall, Int.toNat_natCast, List.drop_length] at hp
    have hpr : p.readable = 0 := hp.readable_eq
    simp only [hall, Int.toNat_natCast, List.take_length, hpr, Int.le_refl, ↓reduceIte] at e
    exact ⟨_, hturn _ e, rfl⟩

namespace HttpDispatcher

variable {env : HttpEnv} {d : HttpDispatcher ρ} {w : Servlets ρ α} {r r' : HttpRequest}
  {conn conn' : HttpConnection ρ α} {reqs : List HttpRequest}

/-- The responses that the servlets make of the requests. -/
def responses (env : HttpEnv) (d : HttpDispatcher ρ) : Servlets ρ α → List HttpRequest → List HttpResponse
  | _, [] => []
  | w, r :: reqs => (d.handleRequest env r w).1 :: responses env d (d.handleRequest env r w).2.2 reqs

/-! ## Requests that are answered -/

/-- A request that does not close its connection leaves all flags as they are. -/
theorem closes_unchanged (h : d.closes env w r = false) :
    d.closes env (d.handleRequest env r w).2.2 r' = d.closes env w r' := by
  simp only [closes]
  cases d.findServlet env r'.requestPath with
  | none => rfl
  | some p =>
      have hmark : (decide (d.findServlet env r.requestPath = some p) && r.isOld) = false := by
        simp only [closes] at h
        cases hf : d.findServlet env r.requestPath with
        | none => simp
        | some p' =>
            simp only [hf, Bool.or_eq_false_iff] at h
            simp [h.2]
      simp only [handleRequest_flag, hmark, Bool.or_false]

theorem dispatch_answered (hp : r.requestPath ≠ []) (h : d.closes env conn.servlets r = false) :
    d.dispatch env r conn =
      (conn.writeBuffer.writeToBuffer (httpRes (d.handleRequest env r conn.servlets).1)).map fun buf =>
        { conn with
          servlets := (d.handleRequest env r conn.servlets).2.2
          writeBuffer := buf
          encoded := conn.encoded ++ [(r, (d.handleRequest env r conn.servlets).1)] } := by
  rw [← handleRequest_isClose] at h
  simp only [dispatch, if_neg hp, h, Bool.false_eq_true, ↓reduceIte]
  rfl

theorem dispatch_all_answered
    (h : ∀ r ∈ reqs, r.requestPath ≠ [] ∧ d.closes env conn.servlets r = false) :
    ∃ w', reqs.foldlM (fun conn r => d.dispatch env r conn) conn =
      (((d.responses env conn.servlets reqs).map httpRes).foldlM TcpBuffer.writeToBuffer conn.writeBuffer).map
        fun buf =>
          { conn with
            servlets := w'
            writeBuffer := buf
            encoded := conn.encoded ++ reqs.zip (d.responses env conn.servlets reqs) } := by
  induction reqs generalizing conn with
  | nil => exact ⟨conn.servlets, by simp [responses]⟩
  | cons r reqs ih =>
      obtain ⟨hp, hc⟩ := h r List.mem_cons_self
      cases hw : conn.writeBuffer.writeToBuffer (httpRes (d.handleRequest env r conn.servlets).1) with
      | none =>
          refine ⟨conn.servlets, ?_⟩
          rw [List.foldlM_cons, dispatch_answered hp hc, hw, responses, List.map_cons, List.foldlM_cons, hw]
          rfl
      | some buf =>
          obtain ⟨c, hcdef⟩ : ∃ c : HttpConnection ρ α, c =
              { conn with
                servlets := (d.handleRequest env r conn.servlets).2.2
                writeBuffer := buf
                encoded := conn.encoded ++ [(r, (d.handleRequest env r conn.servlets).1)] } := ⟨_, rfl⟩
          have hrest : ∀ r' ∈ reqs, r'.requestPath ≠ [] ∧ d.closes env c.servlets r' = false := by
            intro r' hr'
            obtain ⟨hp', hc'⟩ := h r' (List.mem_cons_of_mem r hr')
            rw [hcdef]
            exact ⟨hp', (closes_unchanged hc).trans hc'⟩
          obtain ⟨w', hfold⟩ := ih hrest
          refine ⟨w', ?_⟩
          rw [List.foldlM_cons, dispatch_answered hp hc, hw, responses, List.map_cons, List.foldlM_cons, hw]
          simp only [Option.map_some, Option.bind_eq_bind, Option.bind_some, ← hcdef, hfold]
          simp only [hcdef, List.append_assoc, List.zip_cons_cons, List.singleton_append]

/-! ## Requests that are not -/

theorem dispatch_mono (h : d.dispatch env r conn = some conn') :
    (conn.shutDown = true → conn'.shutDown = true) ∧ conn'.encoded.length ≤ conn.encoded.length + 1 := by
  simp only [dispatch] at h
  split at h
  · cases h
    exact ⟨id, Nat.le_succ _⟩
  · obtain ⟨buf, -, rfl⟩ := Option.map_eq_some_iff.mp h
    simp only [List.length_append, List.length_singleton]
    split
    · simp only [HttpConnection.shutdownConnection]
      split <;> simp
    · simp

theorem dispatch_all_mono (h : reqs.foldlM (fun conn r => d.dispatch env r conn) conn = some conn') :
    (conn.shutDown = true → conn'.shutDown = true) ∧ conn'.encoded.length ≤ conn.encoded.length + reqs.length := by
  induction reqs generalizing conn with
  | nil =>
      cases h
      exact ⟨id, Nat.le_refl _⟩
  | cons r reqs ih =>
      rw [List.foldlM_cons] at h
      obtain ⟨c, hc, h⟩ := Option.bind_eq_some_iff.mp h
      obtain ⟨h1, h2⟩ := dispatch_mono hc
      obtain ⟨h3, h4⟩ := ih h
      refine ⟨fun hs => h3 (h1 hs), ?_⟩
      rw [List.length_cons]
      omega

theorem dispatch_closed (hp : r.requestPath ≠ []) (hc : d.closes env conn.servlets r = true)
    (hs : conn.state = .connected) (h : d.dispatch env r conn = some conn') : conn'.shutDown = true := by
  rw [← handleRequest_isClose] at hc
  simp only [dispatch, if_neg hp, hc, ↓reduceIte, HttpConnection.shutdownConnection, hs] at h
  obtain ⟨buf, -, rfl⟩ := Option.map_eq_some_iff.mp h
  simp

theorem answered_of_dispatch_all (h : reqs.foldlM (fun conn r => d.dispatch env r conn) conn = some conn')
    (hs : conn.state = .connected) (hshut : conn'.shutDown = false)
    (hall : conn'.encoded.map Prod.fst = conn.encoded.map Prod.fst ++ reqs) :
    ∀ r ∈ reqs, r.requestPath ≠ [] ∧ d.closes env conn.servlets r = false := by
  induction reqs generalizing conn with
  | nil =>
      intro r hr
      cases hr
  | cons r reqs ih =>
      rw [List.foldlM_cons] at h
      obtain ⟨c, hc, h⟩ := Option.bind_eq_some_iff.mp h
      obtain ⟨hmono, hcount⟩ := dispatch_all_mono h
      have hp : r.requestPath ≠ [] := by
        intro hp
        simp only [dispatch, if_pos hp] at hc
        cases hc
        have hlen := congrArg List.length hall
        simp only [List.length_map, List.length_append, List.length_cons] at hlen
        omega
      have hclose : d.closes env conn.servlets r = false := by
        refine Bool.eq_false_iff.mpr fun hclose => ?_
        exact absurd (hmono (dispatch_closed hp hclose hs hc)) (by simp [hshut])
      rw [dispatch_answered hp hclose] at hc
      obtain ⟨buf, -, rfl⟩ := Option.map_eq_some_iff.mp hc
      have hrest := ih h hs (by simpa using hall)
      intro r' hr'
      rcases List.mem_cons.mp hr' with rfl | hr'
      · exact ⟨hp, hclose⟩
      · obtain ⟨hp', hc'⟩ := hrest r' hr'
        exact ⟨hp', (closes_unchanged hclose).symm.trans hc'⟩

theorem responses_length : (d.responses env w reqs).length = reqs.length := by
  induction reqs generalizing w with
  | nil => rfl
  | cons r reqs ih => rw [responses, List.length_cons, List.length_cons, ih]

end HttpDispatcher

open HttpDispatcher

variable {env : HttpEnv} {d : HttpDispatcher ρ} {w : Servlets ρ α} {b out : TcpBuffer}

def readBufferOf (q : Bytes) : TcpBuffer := { buffer := q, readIndex := 0, writeIndex := q.length }

def oldText : Bytes := text "GET / HTTP/1.0" ++ g_crlf ++ text "Host:x" ++ g_crlf_double

def oldRequest : HttpRequest := { hostRequest with requestVersion := text "HTTP/1.0" }

def noPathText : Bytes := text "GET http://x HTTP/1.1" ++ g_crlf ++ text "Host:x" ++ g_crlf_double

def noPathRequest : HttpRequest := { hostRequest with requestPath := [] }

theorem accepts_one {q : Bytes} {b' : TcpBuffer} {r : HttpRequest} (hr : (readBufferOf q).readable > 0)
    (hd : HttpCodeC.decode (readBufferOf q) {} = some (b', r)) (hs : r.decodeSucc = true) (hb : b'.readable = 0) :
    Accepts httpCodeC (readBufferOf q) [r] b' :=
  .accepted hr hd hs (.drained (by omega))

theorem not_responds {reqs : List HttpRequest} {b' : TcpBuffer} (hacc : Accepts httpCodeC b reqs b')
    {r : HttpRequest} (hr : r ∈ reqs) (hbad : r.requestPath = [] ∨ d.closes env w r = true) :
    ¬RespondsToAll env d w b out := by
  rintro ⟨reqs', b'', conn, o, hacc', hends, -, hshut, henc, -⟩
  obtain ⟨rfl, -⟩ := hacc.unique hacc'
  obtain ⟨reqs', hacc'', hfold⟩ := execute_iff.mp hends
  obtain ⟨rfl, -⟩ := hacc.unique hacc''
  obtain ⟨hp, hc⟩ := answered_of_dispatch_all hfold rfl hshut henc r hr
  rcases hbad with hbad | hbad
  · exact hp hbad
  · exact absurd (hc.symm.trans hbad) (by decide)

end Tirpc
