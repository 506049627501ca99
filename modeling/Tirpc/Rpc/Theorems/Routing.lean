import Mathlib.Data.List.Induction
import Tirpc.Rpc.Lemmas.Dispatch

/-!
# Which service a full name leads to

A service is registered under its whole full name. A request is split at the first dot of `S.m`, which is the dot
between the service and the method only when there is none in `S`.
-/

namespace Tirpc

open Lib

variable {A M : Type} {regs before after : List (NamedService A M)} {service : NamedService A M}

/-! ## The registered services -/

/-- The service that has been registered last under its name is the one that is found. -/
theorem registerAll_last (hafter : ∀ s ∈ after, s.fullName ≠ service.fullName) :
    registerAll (before ++ service :: after) service.fullName = some service.toService := by
  rw [registerAll, List.foldl_append, List.foldl_cons]
  generalize before.foldl registerService _ = serviceMap
  have hstart : registerService serviceMap service service.fullName = some service.toService :=
    Function.update_self _ _ _
  generalize registerService serviceMap service = serviceMap at hstart
  induction after generalizing serviceMap with
  | nil => exact hstart
  | cons s after ih =>
      refine ih (fun t ht => hafter t (List.mem_cons_of_mem s ht)) _ ?_
      rw [registerService, Function.update_of_ne (Ne.symm (hafter s List.mem_cons_self)), hstart]

theorem registerAll_concat (s : NamedService A M) : registerAll (regs ++ [s]) = registerService (registerAll regs) s :=
  List.foldl_concat _ _ _ _

/-- No registered service finds a method by a name with a dot in it. -/
theorem registerAll_simple {name m : Bytes} {s : Service A M} (h : registerAll regs name = some s)
    (hm : s.findMethodByName m ≠ none) : (46 : UInt8) ∉ m := by
  induction regs using List.reverseRecOn with
  | nil => cases h
  | append_singleton regs t ih =>
      rw [registerAll_concat, registerService] at h
      by_cases hname : name = t.fullName
      · rw [hname, Function.update_self, Option.some.injEq] at h
        exact t.simple m (h ▸ hm)
      · rw [Function.update_of_ne hname] at h
        exact ih h

/-! ## Splitting a full name -/

theorem parseServiceFullName_first {p q : Bytes} (hp : (46 : UInt8) ∉ p) :
    parseServiceFullName (p ++ 46 :: q) = some (p, q) := by
  have hidx : (p ++ 46 :: q).idxOf 46 = p.length := by
    rw [List.idxOf_append, if_neg hp, List.idxOf_cons_self, Nat.zero_add]
  have hlen : (p ++ 46 :: q).length = p.length + 1 + q.length := by
    rw [List.length_append, List.length_cons]
    omega
  have hdrop : (p ++ 46 :: q).drop (p.length + 1) = q := by
    rw [← List.drop_drop, List.drop_left]
    rfl
  have htake : q.take (p.length + 1 + q.length - p.length - 1) = q := List.take_of_length_le (by omega)
  rw [parseServiceFullName, if_neg (by simp)]
  simp only [hidx, hlen]
  rw [if_neg (by omega), List.take_left, hdrop, htake]

/-- A dot in the service name is met first, and the other one is left in the method name. -/
theorem parseServiceFullName_dotted {m : Bytes} (h : (46 : UInt8) ∈ service.fullName) :
    ∃ p q, parseServiceFullName (service.methodFullName m) = some (p, q) ∧ (46 : UInt8) ∈ q := by
  obtain ⟨p, q, hs, hp⟩ := List.eq_append_cons_of_mem h
  refine ⟨p, q ++ text "." ++ m, ?_, ?_⟩
  · rw [NamedService.methodFullName, hs, List.append_assoc, List.append_assoc, List.cons_append,
      parseServiceFullName_first hp, List.append_assoc]
  · rw [List.append_assoc, List.mem_append, List.mem_append]
    exact .inr (.inl (by decide))

/-- For every registered service and every method of it, whatever else is registered: a request with the full name
of the method is dispatched to it if and only if there is no dot in the full name of the service. -/
theorem method_routed_iff {m : Bytes} {method : Method A M} (hregs : regs = before ++ service :: after)
    (hafter : ∀ s ∈ after, s.fullName ≠ service.fullName) (hm : service.findMethodByName m = some method) :
    Routed (registerAll regs) (service.methodFullName m) m method ↔ (46 : UInt8) ∉ service.fullName := by
  constructor
  · intro h hdot
    obtain ⟨serviceName, s, hp, hs, hfound⟩ := h.found
    obtain ⟨p, q, hpq, hq⟩ := parseServiceFullName_dotted (m := m) hdot
    rw [hpq, Option.some.injEq, Prod.mk.injEq] at hp
    exact registerAll_simple hs (by rw [hfound]; exact nofun) (hp.2 ▸ hq)
  · intro hdot
    have hsplit : parseServiceFullName (service.methodFullName m) = some (service.fullName, m) := by
      rw [NamedService.methodFullName, List.append_assoc]
      exact parseServiceFullName_first hdot
    exact ⟨_, _, hsplit, hregs ▸ registerAll_last hafter, hm⟩

/-! ## A service with a package and one without -/

def copyMethod : Method Unit Bytes where
  requestName := text "Bytes"
  parseRequest := some
  callMethod c m := (c, m)
  serializeResponse := some
  requestName_text := bytes_text

def copyService (fullName : Bytes) : NamedService Unit Bytes where
  fullName := fullName
  findMethodByName name := if name = text "copy" then some copyMethod else none
  simple name h := by
    have hname : name = text "copy" := by
      by_contra hne
      exact h (if_neg hne)
    rw [hname]
    decide

theorem copy_routed :
    Routed (registerAll [copyService (text "S"), copyService (text "p.S")]) (text "S.copy") (text "copy")
      copyMethod := by
  have hiff := @method_routed_iff Unit Bytes _ [] [copyService (text "p.S")] (copyService (text "S")) (text "copy")
    copyMethod rfl (by decide) rfl
  exact hiff.mpr (by decide)

/-- A request for a service in a package is not dispatched to its method. -/
theorem packaged_not_routed :
    ¬Routed (registerAll [copyService (text "p.S")]) ((copyService (text "p.S")).methodFullName (text "copy"))
      (text "copy") copyMethod := by
  intro h
  obtain ⟨serviceName, service, hp, hs, -⟩ := h.found
  have hsplit : parseServiceFullName ((copyService (text "p.S")).methodFullName (text "copy")) =
      some (text "p", text "S.copy") := by decide
  rw [hsplit, Option.some.injEq, Prod.mk.injEq] at hp
  have hname : text "copy" ≠ text "S.copy" := by decide
  exact hname hp.2.symm

end Tirpc
