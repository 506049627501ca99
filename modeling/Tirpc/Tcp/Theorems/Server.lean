import Tirpc.Coroutine.Theorems.Reuse
import Tirpc.Tcp.Server

/-!
# The coroutines that a server uses up

The coroutine of a closed connection stays inside `CoFunction`, so the table never hands it out again. The table
lasts for as many coroutines as it has, over the whole run.
-/

namespace Tirpc

open Lib

variable {poolSize stackSize malloc n k cor : Nat} {pool pool' : CoroutinePool} {u : Nat → Bool × Bool}
  {s s' : TcpServer}

/-- Every coroutine came from the table, and no memory was allocated but the first. -/
def TcpServer.AnsweredFromTable (s : TcpServer) : Prop :=
  (∀ cor ∈ s.got, cor < s.pool.poolSize) ∧ s.pool.memoryPool.length = 1

instance (s : TcpServer) : Decidable s.AnsweredFromTable := inferInstanceAs (Decidable (_ ∧ _))

/-! ## The table -/

/-- The flag of each coroutine of the table, and whether it is inside `CoFunction`; no others have been built. -/
structure TableUse (poolSize : Nat) (u : Nat → Bool × Bool) (pool : CoroutinePool) : Prop where
  freeCors_eq : pool.freeCors = (List.range poolSize).map fun k => (k, (u k).1)
  built : pool.cors.length = poolSize
  cors : ∀ k < poolSize, (pool.cor k).index = k ∧ (pool.cor k).isInCoFunc = (u k).2
  memory : pool.memoryPool.length = 1

namespace TableUse

theorem setIsInCoFunc (h : TableUse poolSize u pool) (hk : k < poolSize) {v : Bool} :
    TableUse poolSize (Function.update u k ((u k).1, v)) (pool.setIsInCoFunc k v) := by
  refine ⟨?_, ?_, fun j hj => ⟨?_, ?_⟩, h.memory⟩
  · have hflags : ∀ j, (Function.update u k ((u k).1, v) j).1 = (u j).1 := by
      intro j
      by_cases hj : j = k
      · rw [hj, Function.update_self]
      · rw [Function.update_of_ne hj]
    simp only [hflags]
    exact h.freeCors_eq
  · rw [CoroutinePool.setIsInCoFunc, List.length_modify]
    exact h.built
  · rw [(StacksKept.cor_setIsInCoFunc pool j k v).1]
    exact (h.cors j hj).1
  · rw [setIsInCoFunc_inside (h.built ▸ hk)]
    by_cases hj' : j = k
    · rw [if_pos hj'.symm, hj', Function.update_self]
    · rw [if_neg (Ne.symm hj'), Function.update_of_ne hj']
      exact (h.cors j hj).2

/-- The flag of one coroutine changes. -/
theorem setFlag (h : TableUse poolSize u pool) {b : Bool} {freeCors : List (Nat × Bool)}
    (hfree : freeCors = (List.range poolSize).map fun j => (j, (Function.update u k (b, (u k).2) j).1)) :
    TableUse poolSize (Function.update u k (b, (u k).2)) { pool with freeCors := freeCors } := by
  refine ⟨hfree, h.built, fun j hj => ⟨(h.cors j hj).1, (h.cors j hj).2.trans ?_⟩, h.memory⟩
  by_cases hj' : j = k
  · rw [hj', Function.update_self]
  · rw [Function.update_of_ne hj']

theorem returnCoroutine (h : TableUse poolSize u pool) (hsize : pool.poolSize = poolSize) (hk : k < poolSize) :
    TableUse poolSize (Function.update u k (false, (u k).2)) (pool.returnCoroutine k) := by
  have hindex := (h.cors k hk).1
  have hin : 0 ≤ (pool.cor k).index ∧ (pool.cor k).index < pool.poolSize := by
    rw [hindex, hsize]
    exact ⟨Int.natCast_nonneg k, Int.ofNat_lt.mpr hk⟩
  rw [CoroutinePool.returnCoroutine, if_pos hin, hindex, Int.toNat_natCast]
  refine h.setFlag ?_
  rw [h.freeCors_eq]
  refine modify_map_range (g := fun j => (j, (Function.update u k (false, (u k).2) j).1)) ?_ fun j hj => ?_
  · rw [Function.update_self]
  · rw [Function.update_of_ne hj]

theorem free_iff (h : TableUse poolSize u pool) (hk : k < poolSize) :
    (!(pool.cor k).isInCoFunc && !(u k).1) = true ↔ u k = (false, false) := by
  rw [(h.cors k hk).2, Prod.ext_iff]
  cases (u k).1 <;> cases (u k).2 <;> decide

/-- The first coroutine that is free is handed out. -/
theorem get (h : TableUse poolSize u pool) (hn : n < poolSize) (hfree : u n = (false, false))
    (hbusy : ∀ k < n, u k ≠ (false, false)) (hget : pool.getCoroutineInstanse malloc = some (cor, pool')) :
    cor = n ∧ TableUse poolSize (Function.update u n (true, false)) pool' := by
  have hfind : pool.freeCors.findIdx? (fun e => !(pool.cor e.1).isInCoFunc && !e.2) = some n := by
    rw [List.findIdx?_eq_some_iff_getElem]
    refine ⟨by simpa [h.freeCors_eq] using hn, ?_, fun k hk => ?_⟩
    · simp only [h.freeCors_eq, List.getElem_map, List.getElem_range]
      exact (h.free_iff hn).mpr hfree
    · simp only [h.freeCors_eq, List.getElem_map, List.getElem_range]
      exact mt (h.free_iff (Nat.lt_trans hk hn)).mp (hbusy k hk)
  have hentry : pool.freeCors[n]? = some (n, (u n).1) := by simp [h.freeCors_eq, hn]
  simp only [CoroutinePool.getCoroutineInstanse, hfind, hentry, Option.map_some] at hget
  cases hget
  refine ⟨rfl, ?_⟩
  have hinside : (u n).2 = false := by rw [hfree]
  rw [← hinside]
  refine h.setFlag ?_
  rw [h.freeCors_eq]
  refine set_map_range (g := fun j => (j, (Function.update u n (true, (u n).2) j).1)) ?_ fun j hj => ?_
  · rw [Function.update_self]
  · rw [Function.update_of_ne hj]

/-- When none is free, another is built. -/
theorem get_full (h : TableUse poolSize u pool) (hbusy : ∀ k < poolSize, u k ≠ (false, false))
    (hget : pool.getCoroutineInstanse malloc = some (cor, pool')) : cor = poolSize := by
  have hfind : pool.freeCors.findIdx? (fun e => !(pool.cor e.1).isInCoFunc && !e.2) = none := by
    rw [List.findIdx?_eq_none_iff, h.freeCors_eq]
    intro e he
    obtain ⟨k, hk, rfl⟩ := List.mem_map.mp he
    have hlt := List.mem_range.mp hk
    exact Bool.eq_false_iff.mpr (mt (h.free_iff hlt).mp (hbusy k hlt))
  simp only [CoroutinePool.getCoroutineInstanse, hfind] at hget
  split at hget
  · cases hget
    exact h.built
  · obtain ⟨e, -, he⟩ := Option.map_eq_some_iff.mp hget
    cases he
    exact h.built

end TableUse

/-! ## While the table lasts -/

def ServedPlace.use : ServedPlace → Bool × Bool
  | .accepted => (true, false)
  | .serving | .yielded => (true, true)
  | .deleted => (false, true)

/-- The accept coroutine is the first of the table, and the connections have the next ones. -/
def TcpServer.use (s : TcpServer) : Nat → Bool × Bool
  | 0 => (s.acceptCor.isSome, s.acceptCor.isSome)
  | j + 1 => (s.conns[j]?.map fun c => c.2.use).getD (false, false)

structure TableKept (poolSize : Nat) (s : TcpServer) : Prop where
  table : TableUse poolSize s.use s.pool
  got_eq : s.got = List.range s.got.length
  count : s.got.length = s.acceptCor.toList.length + s.conns.length
  started : s.acceptCor = none → s.conns = []
  conns : ∀ (j : Nat) c, s.conns[j]? = some c → c.1 = j + 1

theorem ServedPlace.use_ne (place : ServedPlace) : place.use ≠ (false, false) := by
  cases place <;> decide

namespace TableKept

theorem busy (h : TableKept poolSize s) (hk : k < s.got.length) : s.use k ≠ (false, false) := by
  rw [h.count] at hk
  cases hacc : s.acceptCor with
  | none =>
      rw [hacc, h.started hacc] at hk
      cases hk
  | some cor =>
      rw [hacc, Option.toList_some, List.length_singleton] at hk
      cases k with
      | zero => simp [TcpServer.use, hacc]
      | succ j =>
          have hj : j < s.conns.length := by omega
          simp only [TcpServer.use, List.getElem?_eq_getElem hj, Option.map_some, Option.getD_some]
          exact ServedPlace.use_ne _

theorem idle (h : TableKept poolSize s) (hk : s.got.length ≤ k) : s.use k = (false, false) := by
  rw [h.count] at hk
  cases hacc : s.acceptCor with
  | none =>
      cases k with
      | zero => simp [TcpServer.use, hacc]
      | succ j => simp [TcpServer.use, h.started hacc]
  | some cor =>
      rw [hacc, Option.toList_some, List.length_singleton] at hk
      cases k with
      | zero => omega
      | succ j =>
          have hj : s.conns.length ≤ j := by omega
          simp [TcpServer.use, List.getElem?_eq_none hj]

theorem lt_of_conn (h : TableKept poolSize s) {conn : Nat} {c : Nat × ServedPlace} (hc : s.conns[conn]? = some c) :
    conn + 1 < s.got.length := by
  have hlt := (List.getElem?_eq_some_iff.mp hc).1
  rw [h.count]
  cases hacc : s.acceptCor with
  | none =>
      rw [h.started hacc] at hlt
      cases hlt
  | some cor =>
      rw [Option.toList_some, List.length_singleton]
      omega

/-- A connection goes on. -/
theorem goto (h : TableKept poolSize s) {conn : Nat} {place place' : ServedPlace}
    (hc : s.conns[conn]? = some (cor, place))
    (htable : TableUse poolSize (Function.update s.use (conn + 1) place'.use) pool') :
    TableKept poolSize ({ s with pool := pool' }.goto conn cor place') := by
  have hlt := (List.getElem?_eq_some_iff.mp hc).1
  have huse : ({ s with pool := pool' }.goto conn cor place').use = Function.update s.use (conn + 1) place'.use := by
    funext k
    cases k with
    | zero => rfl
    | succ j =>
        by_cases hj : j = conn
        · subst hj
          simp [TcpServer.use, TcpServer.goto, hlt]
        · have hne : j + 1 ≠ conn + 1 := fun he => hj (Nat.succ.inj he)
          rw [Function.update_of_ne hne]
          simp [TcpServer.use, TcpServer.goto, List.getElem?_set_ne (Ne.symm hj)]
  refine ⟨huse ▸ htable, h.got_eq, ?_, fun hacc => ?_, fun j c hj => ?_⟩
  · simp only [TcpServer.goto, List.length_set]
    exact h.count
  · simp only [TcpServer.goto, h.started hacc, List.set_nil]
  · rcases of_getElem?_set hj with ⟨-, hj⟩ | ⟨rfl, rfl⟩
    · exact h.conns j c hj
    · exact (h.conns j (cor, place) hc :)

theorem start (h : TableKept poolSize s) (hacc : s.acceptCor = none) (hfits : s.got.length < poolSize)
    (hget : s.pool.getCoroutineInstanse malloc = some (cor, pool')) :
    TableKept poolSize { s with
      pool := pool'.setIsInCoFunc cor true, got := s.got ++ [cor], acceptCor := some cor } := by
  have hconns := h.started hacc
  have hzero : s.got.length = 0 := by rw [h.count, hacc, hconns]; rfl
  rw [hzero] at hfits
  obtain ⟨rfl, htable⟩ := h.table.get hfits (h.idle (Nat.le_of_eq hzero)) nofun hget
  have hin := htable.setIsInCoFunc (v := true) hfits
  refine ⟨?_, ?_, ?_, nofun, fun j c hj => ?_⟩
  · have huse : ∀ s', s' = { s with pool := pool'.setIsInCoFunc 0 true, got := s.got ++ [0], acceptCor := some 0 } →
        TcpServer.use s' = Function.update (Function.update s.use 0 (true, false)) 0 (true, true) := by
      rintro s' rfl
      funext k
      cases k <;> rfl
    rw [huse _ rfl]
    rwa [Function.update_self] at hin
  · simp [List.length_eq_zero_iff.mp hzero]
  · simp [List.length_eq_zero_iff.mp hzero, hconns]
  · rw [hconns] at hj
    cases hj

theorem accept (h : TableKept poolSize s) (hacc : s.acceptCor ≠ none) (hfits : s.got.length < poolSize)
    (hget : s.pool.getCoroutineInstanse malloc = some (cor, pool')) :
    TableKept poolSize ({ s with pool := pool', got := s.got ++ [cor] }.addClient cor) := by
  obtain ⟨first, hfirst⟩ := Option.ne_none_iff_exists'.mp hacc
  have hcount := h.count
  rw [hfirst, Option.toList_some, List.length_singleton, Nat.add_comm] at hcount
  obtain ⟨hcor, htable⟩ := h.table.get hfits (h.idle (Nat.le_refl _)) (fun k hk => h.busy hk) hget
  refine ⟨?_, ?_, ?_, fun hnone => absurd hnone hacc, fun j c hj => ?_⟩
  · have huse : ({ s with pool := pool', got := s.got ++ [cor] }.addClient cor).use =
        Function.update s.use s.got.length (true, false) := by
      funext k
      cases k with
      | zero => rw [hcount, Function.update_of_ne (by omega)]; rfl
      | succ j =>
          by_cases hj : j = s.conns.length
          · rw [hj, hcount, Function.update_self]
            simp [TcpServer.use, TcpServer.addClient, ServedPlace.use]
          · rw [hcount, Function.update_of_ne (by omega)]
            have hnew : (s.conns ++ [(cor, ServedPlace.accepted)])[j]? = s.conns[j]? := by
              rcases Nat.lt_or_gt_of_ne hj with hlt | hgt
              · exact List.getElem?_append_left hlt
              · rw [List.getElem?_eq_none (Nat.le_of_lt hgt), List.getElem?_eq_none]
                rw [List.length_append, List.length_singleton]
                exact hgt
            simp only [TcpServer.use, TcpServer.addClient, hnew]
    rw [huse]
    exact htable
  · simp only [TcpServer.addClient, List.length_append, List.length_singleton, List.range_succ]
    rw [← h.got_eq, hcor]
  · simp [TcpServer.addClient, hfirst, hcount]
    omega
  · rcases of_getElem?_concat hj with hj | ⟨rfl, rfl⟩
    · exact h.conns j c hj
    · exact hcor.trans hcount

end TableKept

/-! ## Every run -/

theorem get_poolSize (hget : pool.getCoroutineInstanse malloc = some (cor, pool')) : pool'.poolSize = pool.poolSize := by
  rcases getCoroutineInstanse_cases hget with ⟨freeCors, rfl⟩ | ⟨ms, block, rfl⟩
  · rfl
  · rfl

theorem returnCoroutine_poolSize : (pool.returnCoroutine k).poolSize = pool.poolSize := by
  rw [CoroutinePool.returnCoroutine]
  split <;> rfl

theorem TcpServer.get_eq (h : s.get malloc = some (cor, s')) : ∃ pool',
    s.pool.getCoroutineInstanse malloc = some (cor, pool') ∧ s' = { s with pool := pool', got := s.got ++ [cor] } := by
  obtain ⟨-, h⟩ := Option.ite_none_right_eq_some.mp h
  obtain ⟨⟨cor', pool'⟩, hget, he⟩ := Option.map_eq_some_iff.mp h
  cases he
  exact ⟨pool', hget, rfl⟩

/-- The table is enough for `poolSize` coroutines, and for no more. -/
structure ServerKept (poolSize : Nat) (s : TcpServer) : Prop where
  size : s.pool.poolSize = poolSize
  within : s.got.length ≤ poolSize → TableKept poolSize s
  beyond : poolSize < s.got.length → ∃ cor ∈ s.got, poolSize ≤ cor

namespace ServerKept

theorem answered_iff (h : ServerKept poolSize s) : s.AnsweredFromTable ↔ s.got.length ≤ poolSize := by
  rw [TcpServer.AnsweredFromTable, h.size]
  constructor
  · rintro ⟨hall, -⟩
    by_contra hlong
    obtain ⟨cor, hcor, hle⟩ := h.beyond (Nat.lt_of_not_le hlong)
    exact Nat.not_lt.mpr hle (hall cor hcor)
  · intro hlen
    have hkept := h.within hlen
    refine ⟨fun cor hcor => ?_, hkept.table.memory⟩
    rw [hkept.got_eq] at hcor
    exact Nat.lt_of_lt_of_le (List.mem_range.mp hcor) hlen

/-- Another coroutine is handed out. -/
theorem get (h : ServerKept poolSize s) (hget : s.pool.getCoroutineInstanse malloc = some (cor, pool'))
    (hgot : s'.got = s.got ++ [cor]) (hsize : s'.pool.poolSize = pool'.poolSize)
    (hkept : TableKept poolSize s → s.got.length < poolSize → TableKept poolSize s') : ServerKept poolSize s' := by
  refine ⟨hsize.trans ((get_poolSize hget).trans h.size), fun hle => ?_, fun hgt => ?_⟩
  · rw [hgot, List.length_append, List.length_singleton] at hle
    exact hkept (h.within (Nat.le_of_succ_le hle)) hle
  · rw [hgot, List.length_append, List.length_singleton] at hgt
    rw [hgot]
    by_cases hlen : s.got.length = poolSize
    · have hfull := (h.within (Nat.le_of_eq hlen)).table.get_full
        (fun k hk => (h.within (Nat.le_of_eq hlen)).busy (hlen ▸ hk)) hget
      exact ⟨cor, List.mem_append_right _ List.mem_cons_self, Nat.le_of_eq hfull.symm⟩
    · obtain ⟨cor', hcor', hle⟩ := h.beyond (by omega)
      exact ⟨cor', List.mem_append_left _ hcor', hle⟩

/-- A connection goes on. -/
theorem goto (h : ServerKept poolSize s) {conn : Nat} {place place' : ServedPlace}
    (hc : s.conns[conn]? = some (cor, place)) (hsize : pool'.poolSize = s.pool.poolSize)
    (htable : TableKept poolSize s → cor < poolSize → cor = conn + 1 → s.use cor = place.use →
      TableUse poolSize (Function.update s.use cor place'.use) pool') :
    ServerKept poolSize ({ s with pool := pool' }.goto conn cor place') := by
  refine ⟨hsize.trans h.size, fun hle => ?_, h.beyond⟩
  have hkept := h.within hle
  have hcor : cor = conn + 1 := hkept.conns conn (cor, place) hc
  have hlt : cor < poolSize := hcor ▸ Nat.lt_of_lt_of_le (hkept.lt_of_conn hc) hle
  have huse : s.use cor = place.use := by simp [hcor, TcpServer.use, hc]
  exact hkept.goto hc (hcor ▸ htable hkept hlt hcor huse)

theorem step {l : ServerStep} (h : ServerKept poolSize s) (hn : serverNext s l = some s') : ServerKept poolSize s' := by
  cases l with
  | start malloc =>
      obtain ⟨hacc, hn⟩ := Option.ite_none_right_eq_some.mp hn
      obtain ⟨⟨cor, s₁⟩, hs, he⟩ := Option.map_eq_some_iff.mp hn
      obtain ⟨pool, hget, rfl⟩ := TcpServer.get_eq hs
      cases he
      exact h.get hget rfl rfl fun hkept hlt => hkept.start hacc hlt hget
  | accept malloc =>
      obtain ⟨⟨hacc, -⟩, hn⟩ := Option.ite_none_right_eq_some.mp hn
      obtain ⟨⟨cor, s₁⟩, hs, he⟩ := Option.map_eq_some_iff.mp hn
      obtain ⟨pool, hget, rfl⟩ := TcpServer.get_eq hs
      cases he
      exact h.get hget rfl rfl fun hkept hlt => hkept.accept hacc hlt hget
  | resume conn =>
      simp only [serverNext] at hn
      split at hn
      · rename_i cor hc
        cases hn
        refine h.goto hc rfl fun hkept hlt _ huse => ?_
        have htable := hkept.table.setIsInCoFunc (v := true) hlt
        rwa [huse] at htable
      · cases hn
  | turn conn =>
      simp only [serverNext] at hn
      split at hn
      · cases hn
        exact h
      · cases hn
  | endOfStream conn =>
      simp only [serverNext] at hn
      split at hn
      · rename_i cor hc
        cases hn
        refine h.goto hc rfl fun hkept _ _ huse => ?_
        have hsame : Function.update s.use cor ServedPlace.yielded.use = s.use := by
          rw [Function.update_eq_self_iff, huse]
          rfl
        rw [hsame]
        exact hkept.table
      · cases hn
  | delete conn =>
      simp only [serverNext] at hn
      split at hn
      · rename_i cor hc
        cases hn
        refine h.goto hc returnCoroutine_poolSize fun hkept hlt _ huse => ?_
        have htable := hkept.table.returnCoroutine h.size hlt
        rwa [huse] at htable
      · cases hn

end ServerKept

theorem serverKept_start (h : ServerStart poolSize stackSize s) : ServerKept poolSize s := by
  obtain ⟨malloc, -, hnew, hs⟩ := h
  have hfits := (Option.ite_none_right_eq_some.mp hnew).1
  have hpool := Option.some.inj ((new_eq hfits).symm.trans hnew)
  rw [hs, ← hpool]
  refine ⟨rfl, fun _ => ⟨⟨?_, ?_, fun k hk => ?_, rfl⟩, rfl, rfl, fun _ => rfl, nofun⟩, nofun⟩
  · refine List.map_congr_left fun k _ => ?_
    cases k <;> rfl
  · simp [poolBehind]
  · cases k <;> simp [CoroutinePool.cor, poolBehind, TcpServer.use, hk]

/-- For every run in which at most `poolSize` coroutines are handed out at any time: all come from the table if and
only if no more than `poolSize` are asked for over the whole run. -/
theorem answered_from_table_iff (h : Reachable serverNext (ServerStart poolSize stackSize) anyStep s) :
    s.AnsweredFromTable ↔ s.got.length ≤ poolSize :=
  (h.invariant (fun _ h0 => serverKept_start h0) fun _ _ _ hI _ hn => hI.step hn).answered_iff

/-- A pool of two coroutines, one of them for the accept coroutine. -/
def twoPool : TcpServer := { pool := poolBehind 2 16 4096 2 }

theorem twoPool_start : ServerStart 2 16 twoPool := ⟨4096, by decide, new_eq (by decide), rfl⟩

/-- A connection is accepted, served and closed by its peer. -/
def oneClient : List ServerStep :=
  [.start 8192, .accept 8192, .resume 0, .turn 0, .endOfStream 0, .delete 0]

theorem answered_from_table_one : ∃ s : TcpServer, s.got = [0, 1] ∧ s.AnsweredFromTable := by
  obtain ⟨s, hs, hgot⟩ : ∃ s, runLabels serverNext twoPool oneClient = some s ∧ s.got = [0, 1] := ⟨_, rfl, by decide⟩
  exact ⟨s, hgot, (answered_from_table_iff ((Reachable.start twoPool_start).of_run hs)).mpr (by rw [hgot]; decide)⟩

/-- The next connection has to be served by a coroutine of a new memory. -/
theorem table_used_up : ∃ s : TcpServer, Reachable serverNext (ServerStart 2 16) anyStep s ∧ s.out = 2 ∧
    ¬s.AnsweredFromTable := by
  obtain ⟨s, hs, hout, hnot⟩ : ∃ s, runLabels serverNext twoPool (oneClient ++ [.accept 8192]) = some s ∧ s.out = 2 ∧
      ¬s.AnsweredFromTable := ⟨_, rfl, by decide, by decide⟩
  exact ⟨s, (Reachable.start twoPool_start).of_run hs, hout, hnot⟩

end Tirpc
