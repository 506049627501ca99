import Mathlib.Tactic.Common

/-!
# Computations that record their memory accesses

A computation yields the accesses it made, in order, and its result. The result is `none` when an
access had no meaning (outside of an object, or of a negative size): what follows is then undefined.
-/

universe u v

namespace Lib

/-- The accesses of a computation and its result. -/
structure Traced (ε : Type u) (α : Type v) where
  log : List ε
  res : Option α

namespace Traced

variable {ε : Type u} {α β : Type v}

def access (e : ε) (r : Option α) : Traced ε α := ⟨[e], r⟩

def lift (r : Option α) : Traced ε α := ⟨[], r⟩

def andThen (x : Traced ε α) (f : α → Traced ε β) : Traced ε β :=
  match x.res with
  | none => ⟨x.log, none⟩
  | some a => ⟨x.log ++ (f a).log, (f a).res⟩

instance : Monad (Traced ε) where
  pure a := ⟨[], some a⟩
  bind := andThen

@[simp] theorem res_pure (a : α) : (pure a : Traced ε α).res = some a := rfl
@[simp] theorem res_access (e : ε) (r : Option α) : (access e r).res = r := rfl
@[simp] theorem res_lift (r : Option α) : (lift r : Traced ε α).res = r := rfl

@[simp] theorem res_bind (x : Traced ε α) (f : α → Traced ε β) :
    (x >>= f).res = x.res.bind fun a => (f a).res := by
  show (andThen x f).res = _
  simp only [andThen]
  cases x.res <;> rfl

/-! ## Accesses that keep to a policy -/

/-- Every access that the computation makes is allowed. -/
def Safe (P : ε → Prop) (x : Traced ε α) : Prop := ∀ e ∈ x.log, P e

variable {P : ε → Prop}

@[simp] theorem safe_pure (a : α) : (pure a : Traced ε α).Safe P := by
  intro e he; cases he

@[simp] theorem safe_lift (r : Option α) : (lift r : Traced ε α).Safe P := by
  intro e he; cases he

@[simp] theorem safe_access (e : ε) (r : Option α) : (access e r).Safe P ↔ P e := by
  simp [Safe, access]

@[simp] theorem safe_bind (x : Traced ε α) (f : α → Traced ε β) :
    (x >>= f).Safe P ↔ x.Safe P ∧ ∀ a, x.res = some a → (f a).Safe P := by
  show (andThen x f).Safe P ↔ _
  simp only [andThen, Safe]
  cases hx : x.res with
  | none => simp
  | some a => simp [or_imp, forall_and]

/-! ## What a computation ensures when it keeps to the policy -/

/-- If all accesses are allowed, there is a result and it satisfies `Q`. -/
def Ensures (P : ε → Prop) (x : Traced ε α) (Q : α → Prop) : Prop :=
  x.Safe P → ∃ a, x.res = some a ∧ Q a

variable {Q : α → Prop} {R : β → Prop}

theorem ensures_pure {a : α} (h : Q a) : (pure a : Traced ε α).Ensures P Q := fun _ => ⟨a, rfl, h⟩

theorem ensures_access {e : ε} {r : Option α} (h : P e → ∃ a, r = some a ∧ Q a) :
    (access e r).Ensures P Q := fun hs => h ((safe_access e r).mp hs)

theorem Ensures.bind {x : Traced ε α} {f : α → Traced ε β} (hx : x.Ensures P Q)
    (hf : ∀ a, Q a → (f a).Ensures P R) : (x >>= f).Ensures P R := by
  intro hs
  obtain ⟨h1, h2⟩ := (safe_bind x f).mp hs
  obtain ⟨a, ha, hq⟩ := hx h1
  obtain ⟨c, hc, hr⟩ := hf a hq (h2 a ha)
  exact ⟨c, by rw [res_bind, ha]; exact hc, hr⟩

theorem Ensures.ite {c : Prop} [Decidable c] {x y : Traced ε α} (hx : c → x.Ensures P Q)
    (hy : ¬c → y.Ensures P Q) : (if c then x else y).Ensures P Q := by
  split
  · exact hx ‹_›
  · exact hy ‹_›

/-! ## What a computation delivers -/

/-- The result, if there is one, satisfies `Q`. -/
def Delivers (x : Traced ε α) (Q : α → Prop) : Prop := ∀ a, x.res = some a → Q a

theorem delivers_pure {a : α} (h : Q a) : (pure a : Traced ε α).Delivers Q := by
  intro b hb
  cases hb
  exact h

theorem delivers_access {e : ε} {r : Option α} (h : ∀ a, r = some a → Q a) :
    (access e r).Delivers Q := h

theorem delivers_any {x : Traced ε α} : x.Delivers fun _ => True := fun _ _ => trivial

theorem Delivers.bind {x : Traced ε α} {f : α → Traced ε β} (hx : x.Delivers Q)
    (hf : ∀ a, Q a → (f a).Delivers R) : (x >>= f).Delivers R := by
  intro c hc
  rw [res_bind] at hc
  obtain ⟨a, ha, hc⟩ := Option.bind_eq_some_iff.mp hc
  exact hf a (hx a ha) c hc

theorem Delivers.ite {c : Prop} [Decidable c] {x y : Traced ε α} (hx : c → x.Delivers Q)
    (hy : ¬c → y.Delivers Q) : (if c then x else y).Delivers Q := by
  split
  · exact hx ‹_›
  · exact hy ‹_›

end Traced

end Lib
