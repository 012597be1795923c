import Disassembly.Fault

/-!
# Outcomes of computations that may fail

Taking a sequence of computations apart, saying how one ends, and comparing two of
them: they end alike when both fail with the same fault, or when their results are
related.
-/

namespace Disassembly

section Bind
variable {ε α β : Type}

@[simp] theorem ok_bind (a : α) (f : α → Except ε β) : Except.ok a >>= f = f a := rfl

@[simp] theorem error_bind (e : ε) (f : α → Except ε β) :
    Except.error e >>= f = .error e := rfl

@[simp] theorem pure_eq_ok (a : α) : (pure a : Except ε α) = .ok a := rfl

@[simp] theorem orFault_ok (a : α) : orFault (.ok a) = .ok a := rfl

@[simp] theorem orFault_error (e : CapacityError) :
    orFault (.error e : Except CapacityError α) = .error (.capacity e) := rfl

/-- A view of the result has no part in the failure. -/
theorem orFault_map (f : α → β) (x : Except CapacityError α) :
    orFault (x.map f) = (orFault x).map f := by
  cases x with
  | error e => rfl
  | ok a => rfl

theorem orFault_eq_ok_iff {x : Except CapacityError α} {a : α} :
    orFault x = .ok a ↔ x = .ok a := by
  cases x with
  | error e => exact ⟨nofun, nofun⟩
  | ok b => simp

/-- A sequence succeeds exactly when both of its parts do. -/
theorem bind_eq_ok_iff {x : Except ε α} {f : α → Except ε β} {b : β} :
    x >>= f = .ok b ↔ ∃ a, x = .ok a ∧ f a = .ok b := by
  cases x with
  | error e => simp
  | ok a => simp

/-- A view of a result is one of a success. -/
theorem map_eq_ok_iff {x : Except ε α} {f : α → β} {b : β} :
    x.map f = .ok b ↔ ∃ a, x = .ok a ∧ f a = b := by
  cases x with
  | error e => simp [Except.map]
  | ok a => simp [Except.map]

/-- Two computations that can fail in one way only are done in either order. -/
theorem bind_swap {γ : Type} {e : ε} {x : Except ε α} {y : Except ε β}
    (hx : ∀ e', x = .error e' → e' = e) (hy : ∀ e', y = .error e' → e' = e)
    (f : α → β → Except ε γ) :
    (x >>= fun a => y >>= fun b => f a b) = y >>= fun b => x >>= fun a => f a b := by
  cases x with
  | ok a => rfl
  | error ex =>
      cases y with
      | ok b => rfl
      | error ey => rw [error_bind, error_bind, hx ex rfl, hy ey rfl]

end Bind

/-- A computation ends in a result of one sort or in a fault of another. -/
inductive Ends {α : Type} (A : α → Prop) (R : Fault → Prop) : Except Fault α → Prop
  | ok {a} (result : A a) : Ends A R (.ok a)
  | error {fault} (cause : R fault) : Ends A R (.error fault)

namespace Ends

variable {α β : Type} {A : α → Prop} {B : β → Prop} {R : Fault → Prop}

/-- A sequence ends as its second part does from each result of the first. -/
theorem bind {x : Except Fault α} {f : α → Except Fault β} (h : Ends A R x)
    (hf : ∀ a, A a → Ends B R (f a)) : Ends B R (x >>= f) := by
  cases h with
  | ok result => exact hf _ result
  | error cause => exact .error cause

/-- Less can be said of the results and of the faults. -/
theorem mono {A' : α → Prop} {R' : Fault → Prop} {x : Except Fault α} (h : Ends A R x)
    (hA : ∀ a, A a → A' a) (hR : ∀ fault, R fault → R' fault) : Ends A' R' x := by
  cases h with
  | ok result => exact .ok (hA _ result)
  | error cause => exact .error (hR _ cause)

/-- Less can be said of the results. -/
theorem imp {A' : α → Prop} {x : Except Fault α} (h : Ends A R x) (hA : ∀ a, A a → A' a) :
    Ends A' R x :=
  h.mono hA fun _ cause => cause

/-- Less can be said of the faults. -/
theorem imp_fault {R' : Fault → Prop} {x : Except Fault α} (h : Ends A R x)
    (hR : ∀ fault, R fault → R' fault) : Ends A R' x :=
  h.mono (fun _ result => result) hR

theorem of_ok {x : Except Fault α} {a : α} (h : Ends A R x) (hx : x = .ok a) : A a := by
  subst hx
  cases h with
  | ok result => exact result

theorem of_error {x : Except Fault α} {fault : Fault} (h : Ends A R x)
    (hx : x = .error fault) : R fault := by
  subst hx
  cases h with
  | error cause => exact cause

theorem and {A' : α → Prop} {R' : Fault → Prop} {x : Except Fault α} (h : Ends A R x)
    (h' : Ends A' R' x) : Ends (fun a => A a ∧ A' a) (fun fault => R fault ∧ R' fault) x := by
  cases h with
  | ok result => exact .ok ⟨result, h'.of_ok rfl⟩
  | error cause => exact .error ⟨cause, h'.of_error rfl⟩

end Ends

/-- A computation gives results of one sort or fails in any way. -/
abbrev Yields {α : Type} (A : α → Prop) (x : Except Fault α) : Prop :=
  Ends A (fun _ => True) x

namespace Yields

variable {α β : Type} {A : α → Prop} {B : β → Prop}

/-- A sequence gives what its second part gives from every result of the first. -/
theorem after (x : Except Fault α) {f : α → Except Fault β} (hf : ∀ a, Yields B (f a)) :
    Yields B (x >>= f) := by
  cases x with
  | ok a => exact hf a
  | error fault => exact .error trivial

/-- The causes of a failure can be left out. -/
theorem of_ends {R : Fault → Prop} {x : Except Fault α} (h : Ends A R x) : Yields A x :=
  h.mono (fun _ result => result) fun _ _ => trivial

end Yields

/-- Both computations fail with the same fault, or their results are related. -/
inductive Alike {α β : Type} (R : α → β → Prop) : Except Fault α → Except Fault β → Prop
  | ok {a b} (related : R a b) : Alike R (.ok a) (.ok b)
  | error (fault : Fault) : Alike R (.error fault) (.error fault)

/-- The states that a run passes through, and the fault that ends it, if one does. -/
def trace {σ ι : Type} (act : σ → ι → Except Fault σ) (s : σ) :
    List ι → List σ × Option Fault
  | [] => ([], none)
  | i :: rest =>
      match act s i with
      | .ok next => (next :: (trace act next rest).1, (trace act next rest).2)
      | .error fault => ([], some fault)

namespace Alike

variable {α β γ δ ι : Type} {R : α → β → Prop} {S : γ → δ → Prop}

/-- A computation ends like itself. -/
theorem refl {R : α → α → Prop} (hR : ∀ a, R a a) (x : Except Fault α) : Alike R x x := by
  cases x with
  | ok a => exact .ok (hR a)
  | error fault => exact .error fault

/-- What ends like a success succeeds. -/
theorem exists_ok {x : Except Fault α} {b : β} (h : Alike R x (.ok b)) :
    ∃ a, x = .ok a ∧ R a b := by
  generalize hy : (Except.ok b : Except Fault β) = y at h
  cases h with
  | ok related =>
      cases hy
      exact ⟨_, rfl, related⟩
  | error fault => cases hy

/-- What a success ends like succeeds. -/
theorem exists_right {a : α} {y : Except Fault β} (h : Alike R (.ok a) y) :
    ∃ b, y = .ok b ∧ R a b := by
  generalize hx : (Except.ok a : Except Fault α) = x at h
  cases h with
  | ok related =>
      cases hx
      exact ⟨_, rfl, related⟩
  | error fault => cases hx

/-- Sequences end alike when their first parts do and related results go on alike. -/
theorem bind {x : Except Fault α} {y : Except Fault β} {f : α → Except Fault γ}
    {g : β → Except Fault δ} (h : Alike R x y) (hfg : ∀ a b, R a b → Alike S (f a) (g b)) :
    Alike S (x >>= f) (y >>= g) := by
  cases h with
  | ok related => exact hfg _ _ related
  | error fault => exact .error fault

/-- Sequences with the same first part end alike when every result goes on alike. -/
theorem bind_same (x : Except Fault ι) {f : ι → Except Fault γ} {g : ι → Except Fault δ}
    (hfg : ∀ a, x = .ok a → Alike S (f a) (g a)) : Alike S (x >>= f) (x >>= g) := by
  cases x with
  | ok a => exact hfg a rfl
  | error fault => exact .error fault

/-- A first part ends like its sequence when the rest never fails. -/
theorem bind_total {x : Except Fault β} {f : β → Except Fault α}
    (hf : ∀ b, x = .ok b → ∃ a, f b = .ok a ∧ R a b) : Alike R (x >>= f) x := by
  cases x with
  | ok b =>
      obtain ⟨a, ha, related⟩ := hf b rfl
      rw [ok_bind, ha]
      exact .ok related
  | error fault => exact .error fault

/-- A sequence ends like its first part when the rest never fails. -/
theorem total_bind {S : α → γ → Prop} {x : Except Fault α} {y : Except Fault β}
    {g : β → γ} (h : Alike R x y) (hg : ∀ a b, R a b → S a (g b)) :
    Alike S x (y >>= fun b => .ok (g b)) := by
  cases h with
  | ok related => exact .ok (hg _ _ related)
  | error fault => exact .error fault

theorem mono {R' : α → β → Prop} {x : Except Fault α} {y : Except Fault β}
    (h : Alike R x y) (hR : ∀ a b, R a b → R' a b) : Alike R' x y := by
  cases h with
  | ok related => exact .ok (hR _ _ related)
  | error fault => exact .error fault

/-- What holds of every result of one of them can be added. -/
theorem and_ends {B : β → Prop} {F : Fault → Prop} {x : Except Fault α} {y : Except Fault β}
    (h : Alike R x y) (hy : Ends B F y) : Alike (fun a b => R a b ∧ B b) x y := by
  cases h with
  | ok related => exact .ok ⟨related, hy.of_ok rfl⟩
  | error fault => exact .error fault

/-- One of them ends as the other one does. -/
theorem ends {A : α → Prop} {B : β → Prop} {F : Fault → Prop} {x : Except Fault α}
    {y : Except Fault β} (h : Alike R x y) (hy : Ends B F y)
    (hA : ∀ a b, R a b → B b → A a) : Ends A F x := by
  cases h with
  | ok related => exact .ok (hA _ _ related (hy.of_ok rfl))
  | error fault => exact .error (hy.of_error rfl)

/-- Two passes over one list end alike when each of their steps does. -/
theorem foldlM {f : α → ι → Except Fault α} {g : β → ι → Except Fault β} (items : List ι)
    (hstep : ∀ i ∈ items, ∀ a b, R a b → Alike R (f a i) (g b i)) {a : α} {b : β}
    (h : R a b) : Alike R (items.foldlM f a) (items.foldlM g b) := by
  induction items generalizing a b with
  | nil => exact .ok h
  | cons i rest ih =>
      simp only [List.foldlM_cons]
      apply (hstep i List.mem_cons_self a b h).bind
      intro a' b' h'
      exact ih (fun j hj => hstep j (List.mem_cons_of_mem i hj)) h'

/-- Runs show the same and end in the same way when every action keeps a relation, which may
look at the actions to come, and related states show the same. -/
theorem trace_eq {act : α → ι → Except Fault α} {act' : β → ι → Except Fault β} {f : α → γ}
    {g : β → γ} {Q : α → β → List ι → Prop}
    (hstep : ∀ a b i rest, Q a b (i :: rest) →
      Alike (fun a' b' => f a' = g b' ∧ Q a' b' rest) (act a i) (act' b i))
    {a : α} {b : β} (items : List ι) (h : Q a b items) :
    (trace act a items).map (·.map f) id = (trace act' b items).map (·.map g) id := by
  induction items generalizing a b with
  | nil => rfl
  | cons i rest ih =>
      have halike := hstep a b i rest h
      simp only [trace]
      generalize act a i = x at halike ⊢
      generalize act' b i = y at halike ⊢
      cases halike with
      | error fault => rfl
      | ok related =>
          have htail := ih related.2
          simp only [Prod.map, Prod.mk.injEq, id_eq] at htail ⊢
          exact ⟨by rw [List.map_cons, List.map_cons, related.1, htail.1], htail.2⟩

/-- What is the same of related results is the same of both computations. -/
theorem map_eq {f : α → γ} {g : β → γ} {x : Except Fault α} {y : Except Fault β}
    (h : Alike (fun a b => f a = g b) x y) : x.map f = y.map g := by
  cases h with
  | ok related => exact congrArg Except.ok related
  | error fault => rfl

/-- Equality is what ends alike with equal results. -/
theorem eq_of_eq {x y : Except Fault α} (h : Alike Eq x y) : x = y := by
  cases h with
  | ok related => rw [related]
  | error fault => rfl

end Alike

end Disassembly
