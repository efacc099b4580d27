import Mathlib.Data.List.Basic

/-!
# Procedures that make calls

A procedure is a tree of calls: what it does next depends on the answers it gets.
The surroundings say which answers a call may get and how the state moves with it.
`Exec` is what a procedure can do there, `wp` the weakest condition on the state
before it that ensures a condition on the state and the result after it.
-/

namespace Lib

inductive Proc (Q : Type) (A : Q → Type) (α : Type) where
  | ret (a : α)
  | call (q : Q) (k : A q → Proc Q A α)

namespace Proc
variable {Q : Type} {A : Q → Type} {σ α β : Type}

def bind : Proc Q A α → (α → Proc Q A β) → Proc Q A β
  | .ret a, f => f a
  | .call q k, f => .call q fun r => (k r).bind f

instance : Monad (Proc Q A) where
  pure := .ret
  bind := bind

theorem bind_assoc {γ : Type} (p : Proc Q A α) (f : α → Proc Q A β) (g : β → Proc Q A γ) :
    (p >>= f) >>= g = p >>= fun a => f a >>= g := by
  show (p.bind f).bind g = p.bind fun a => (f a).bind g
  induction p with
  | ret a => rfl
  | call q k ih =>
    simp only [bind]
    exact congrArg (Proc.call q) (funext ih)

/-- One call. -/
def ask (q : Q) : Proc Q A (A q) := .call q .ret

/-- `W s q r s'`: in `s` the call `q` may be answered by `r`, which leads to `s'`. -/
abbrev Answers (σ Q : Type) (A : Q → Type) : Type := σ → (q : Q) → A q → σ → Prop

variable (W : Answers σ Q A)

inductive Exec : σ → Proc Q A α → σ → α → Prop where
  | ret (s : σ) (a : α) : Exec s (.ret a) s a
  | call {s s' s'' : σ} {q : Q} {k : A q → Proc Q A α} {r : A q} {a : α} (h : W s q r s')
      (hk : Exec s' (k r) s'' a) : Exec s (.call q k) s'' a

def wp : Proc Q A α → (σ → α → Prop) → σ → Prop
  | .ret a, post, s => post s a
  | .call q k, post, s => ∀ r s', W s q r s' → (k r).wp post s'

variable {W}

@[simp] theorem wp_ret (a : α) (post : σ → α → Prop) (s : σ) :
    (Proc.ret a : Proc Q A α).wp W post s = post s a := rfl

@[simp] theorem wp_pure (a : α) (post : σ → α → Prop) (s : σ) :
    (pure a : Proc Q A α).wp W post s = post s a := rfl

theorem wp_mono {p : Proc Q A α} {post post' : σ → α → Prop} (himp : ∀ s a, post s a → post' s a)
    {s : σ} (h : p.wp W post s) : p.wp W post' s := by
  induction p generalizing s with
  | ret a => exact himp s a h
  | call q k ih => exact fun r s' hr => ih r (h r s' hr)

/- Fewer answers, more that holds of them. -/
theorem wp_anti {W' : Answers σ Q A} (hW : ∀ s q r s', W' s q r s' → W s q r s') {p : Proc Q A α}
    {post : σ → α → Prop} {s : σ} (h : p.wp W post s) : p.wp W' post s := by
  induction p generalizing s with
  | ret a => exact h
  | call q k ih => exact fun r s' hr => ih r (h r s' (hW s q r s' hr))

theorem wp_and {p : Proc Q A α} {post post' : σ → α → Prop} {s : σ} (h : p.wp W post s)
    (h' : p.wp W post' s) : p.wp W (fun s a => post s a ∧ post' s a) s := by
  induction p generalizing s with
  | ret a => exact ⟨h, h'⟩
  | call q k ih => exact fun r s' hr => ih r (h r s' hr) (h' r s' hr)

theorem wp_bind {p : Proc Q A α} {f : α → Proc Q A β} {post : σ → β → Prop} {s : σ} :
    (p >>= f).wp W post s ↔ p.wp W (fun s a => (f a).wp W post s) s := by
  show (p.bind f).wp W post s ↔ _
  induction p generalizing s with
  | ret a => exact Iff.rfl
  | call q k ih =>
    simp only [bind, wp]
    exact forall_congr' fun r => forall_congr' fun s' => imp_congr_right fun _ => ih r

theorem wp_ask_bind {q : Q} {f : A q → Proc Q A β} {post : σ → β → Prop} {s : σ} :
    (ask q >>= f).wp W post s ↔ ∀ r s', W s q r s' → (f r).wp W post s' := Iff.rfl

/-- Sequencing through a specification of the first part. -/
theorem wp_seq {p : Proc Q A α} {f : α → Proc Q A β} {mid : σ → α → Prop} {post : σ → β → Prop}
    {s : σ} (hp : p.wp W mid s) (hf : ∀ s a, mid s a → (f a).wp W post s) :
    (p >>= f).wp W post s :=
  wp_bind.mpr (wp_mono hf hp)

theorem Exec.post {p : Proc Q A α} {post : σ → α → Prop} {s s' : σ} {a : α} (h : Exec W s p s' a)
    (hp : p.wp W post s) : post s' a := by
  induction h with
  | ret s a => exact hp
  | call hr _ ih => exact ih (hp _ _ hr)

/-- What a procedure ends with is what it can do. -/
theorem wp_exec (p : Proc Q A α) (s : σ) : p.wp W (Exec W s p) s := by
  induction p generalizing s with
  | ret a => exact .ret s a
  | call q k ih => exact fun r s' hr => wp_mono (fun _ _ h => .call hr h) (ih r s')

/-- Surroundings seen through `f`. -/
theorem Exec.map {σ' : Type} {W' : Answers σ' Q A} (f : σ → σ')
    (himp : ∀ s q r s', W s q r s' → W' (f s) q r (f s')) {p : Proc Q A α} {s s' : σ} {a : α}
    (h : Exec W s p s' a) : Exec W' (f s) p (f s') a := by
  induction h with
  | ret s a => exact .ret (f s) a
  | call hr _ ih => exact .call (himp _ _ _ _ hr) ih

theorem Exec.mono {W' : Answers σ Q A} (himp : ∀ s q r s', W s q r s' → W' s q r s') {p : Proc Q A α}
    {s s' : σ} {a : α} (h : Exec W s p s' a) : Exec W' s p s' a :=
  h.map id himp

/-! ### Procedures among others -/

section Rely
variable (W) (Rely Guar : σ → σ → Prop)

/-- `wp` where others move the state by `Rely` before each call and at the end, and where each
call of the procedure itself has to move it by `Guar`. -/
def rg : Proc Q A α → (σ → α → Prop) → σ → Prop
  | .ret a, post, s => ∀ s', Rely s s' → post s' a
  | .call q k, post, s => ∀ s', Rely s s' → ∀ r s'', W s' q r s'' → Guar s' s'' ∧ (k r).rg post s''

variable {W Rely Guar}

theorem rg_of_rely (htrans : ∀ s s' s'', Rely s s' → Rely s' s'' → Rely s s'') {p : Proc Q A α}
    {post : σ → α → Prop} {s s' : σ} (h : p.rg W Rely Guar post s) (hs : Rely s s') :
    p.rg W Rely Guar post s' := by
  cases p with
  | ret a => exact fun s'' hs' => h s'' (htrans s s' s'' hs hs')
  | call q k => exact fun s'' hs' => h s'' (htrans s s' s'' hs hs')

theorem rg_mono {p : Proc Q A α} {post post' : σ → α → Prop} (himp : ∀ s a, post s a → post' s a)
    {s : σ} (h : p.rg W Rely Guar post s) : p.rg W Rely Guar post' s := by
  induction p generalizing s with
  | ret a => exact fun s' hs => himp s' a (h s' hs)
  | call q k ih =>
    intro s' hs r s'' hr
    obtain ⟨hg, hk⟩ := h s' hs r s'' hr
    exact ⟨hg, ih r hk⟩

theorem rg_seq (hrefl : ∀ s, Rely s s) {p : Proc Q A α} {f : α → Proc Q A β} {mid : σ → α → Prop}
    {post : σ → β → Prop} {s : σ} (hp : p.rg W Rely Guar mid s)
    (hf : ∀ s a, mid s a → (f a).rg W Rely Guar post s) : (p >>= f).rg W Rely Guar post s := by
  show (p.bind f).rg W Rely Guar post s
  induction p generalizing s with
  | ret a => exact hf s a (hp s (hrefl s))
  | call q k ih =>
    intro s' hs r s'' hr
    obtain ⟨hg, hk⟩ := hp s' hs r s'' hr
    exact ⟨hg, ih r hk⟩

end Rely

/-! ### Surroundings that answer by a function -/

/-- The end of a procedure whose calls are answered by `h`. -/
def run (h : σ → (q : Q) → A q × σ) : σ → Proc Q A α → σ × α
  | s, .ret a => (s, a)
  | s, .call q k => run h (h s q).2 (k (h s q).1)

theorem run_bind (h : σ → (q : Q) → A q × σ) (s : σ) (p : Proc Q A α) (f : α → Proc Q A β) :
    (p >>= f).run h s = (f (p.run h s).2).run h (p.run h s).1 := by
  show (p.bind f).run h s = _
  induction p generalizing s with
  | ret a => rfl
  | call q k ih => exact ih (h s q).1 (h s q).2

theorem exec_run {h : σ → (q : Q) → A q × σ} (hW : ∀ s q, W s q (h s q).1 (h s q).2) (s : σ)
    (p : Proc Q A α) : Exec W s p (p.run h s).1 (p.run h s).2 := by
  induction p generalizing s with
  | ret a => exact .ret s a
  | call q k ih => exact .call (hW s q) (ih (h s q).1 (h s q).2)

/- The answers only have to be allowed in the states the run can be in. -/
theorem exec_run_of {h : σ → (q : Q) → A q × σ} {I : σ → Prop}
    (hW : ∀ s q, I s → W s q (h s q).1 (h s q).2 ∧ I (h s q).2) {s : σ} (hs : I s) (p : Proc Q A α) :
    Exec W s p (p.run h s).1 (p.run h s).2 := by
  induction p generalizing s with
  | ret a => exact .ret s a
  | call q k ih =>
    obtain ⟨hr, hs'⟩ := hW s q hs
    exact .call hr (ih (h s q).1 hs')

/-! ### Procedures that make calls of one kind only -/

/-- Every call the procedure can make is in `P`. -/
def Only (P : Q → Prop) : Proc Q A α → Prop
  | .ret _ => True
  | .call q k => P q ∧ ∀ r, (k r).Only P

theorem only_true (p : Proc Q A α) : p.Only fun _ => True := by
  induction p with
  | ret a => trivial
  | call q k ih => exact ⟨trivial, ih⟩

theorem only_ask {P : Q → Prop} {q : Q} (h : P q) : (ask q : Proc Q A (A q)).Only P :=
  ⟨h, fun _ => trivial⟩

theorem only_bind {P : Q → Prop} {p : Proc Q A α} {f : α → Proc Q A β} (hp : p.Only P)
    (hf : ∀ a, (f a).Only P) : (p >>= f).Only P := by
  show (p.bind f).Only P
  induction p with
  | ret a => exact hf a
  | call q k ih => exact ⟨hp.1, fun r => ih r (hp.2 r)⟩

theorem Only.mono {P P' : Q → Prop} (himp : ∀ q, P q → P' q) {p : Proc Q A α} (hp : p.Only P) :
    p.Only P' := by
  induction p with
  | ret a => trivial
  | call q k ih => exact ⟨himp q hp.1, fun r => ih r (hp.2 r)⟩

/- A condition that every call of the kind keeps survives the procedure. -/
theorem Only.wp {P : Q → Prop} {p : Proc Q A α} (hp : p.Only P) {I : σ → Prop}
    (hstep : ∀ s q r s', P q → I s → W s q r s' → I s') {s : σ} (hs : I s) :
    p.wp W (fun s _ => I s) s := by
  induction p generalizing s with
  | ret a => exact hs
  | call q k ih => exact fun r s' hr => ih r (hp.2 r) (hstep s q r s' hp.1 hs hr)

end Proc
end Lib
