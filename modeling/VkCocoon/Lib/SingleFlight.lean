import Mathlib.Logic.Relation
import VkCocoon.Lib.Proc

/-!
# Single flights

Callers with equal keys share the work of one of them: the first to come starts a
flight, the others wait for its result, and a caller that gives up leaves the flight
alone. A flight and what a caller does before it joins one are procedures, so that the
calls of all of them interleave. Flights with one key never overlap: each may rely on
what the flights with other keys keep, and its own key is its own.
-/

namespace Lib.SingleFlight
variable {κ Req ρ σ Q : Type} {A : Q → Type}

structure Service (κ Req ρ Q : Type) (A : Q → Type) where
  key : Req → κ
  /-- what a caller does by itself; a result here ends the call -/
  ask : Req → Proc Q A (Option ρ)
  fly : Req → Proc Q A ρ

inductive Stage (ρ Q : Type) (A : Q → Type) where
  | running (p : Proc Q A ρ)
  | landed (r : ρ)

/-- A flight with the request of the caller that started it, and the state it took off in. -/
structure Flight (σ Req ρ Q : Type) (A : Q → Type) where
  req : Req
  since : σ
  stage : Stage ρ Q A

inductive CallPC (ρ Q : Type) (A : Q → Type) where
  | asking (p : Proc Q A (Option ρ))
  | waiting (i : ℕ)
  /-- the caller's own result, or that of a flight -/
  | got (i : Option ℕ) (r : ρ)
  /-- the caller's context is done -/
  | gone

structure Caller (Req ρ Q : Type) (A : Q → Type) where
  req : Req
  pc : CallPC ρ Q A

structure State (σ Req ρ Q : Type) (A : Q → Type) where
  shared : σ
  flights : List (Flight σ Req ρ Q A)
  callers : List (Caller Req ρ Q A)

/-- The state before the first call. -/
def State.start (s : σ) : State σ Req ρ Q A := ⟨s, [], []⟩

def Flight.Running (f : Flight σ Req ρ Q A) : Prop := ∃ p, f.stage = .running p

/-- A step of the whole: `W` answers calls, `E` is everybody else. -/
inductive Step (S : Service κ Req ρ Q A) (W : Proc.Answers σ Q A) (E : σ → σ → Prop) :
    State σ Req ρ Q A → State σ Req ρ Q A → Prop where
  | arrive {st : State σ Req ρ Q A} (q : Req) :
      Step S W E st { st with callers := st.callers ++ [⟨q, .asking (S.ask q)⟩] }
  | ask {st : State σ Req ρ Q A} {i : ℕ} {q : Req} {x : Q} {k : A x → Proc Q A (Option ρ)} {r : A x}
      {s' : σ} (h : st.callers[i]? = some ⟨q, .asking (.call x k)⟩) (hW : W st.shared x r s') :
      Step S W E st { st with shared := s', callers := st.callers.set i ⟨q, .asking (k r)⟩ }
  | answer {st : State σ Req ρ Q A} {i : ℕ} {q : Req} {r : ρ}
      (h : st.callers[i]? = some ⟨q, .asking (.ret (some r))⟩) :
      Step S W E st { st with callers := st.callers.set i ⟨q, .got none r⟩ }
  | join {st : State σ Req ρ Q A} {i j : ℕ} {q : Req} {f : Flight σ Req ρ Q A}
      (h : st.callers[i]? = some ⟨q, .asking (.ret none)⟩) (hf : st.flights[j]? = some f)
      (hrun : f.Running) (hkey : S.key f.req = S.key q) :
      Step S W E st { st with callers := st.callers.set i ⟨q, .waiting j⟩ }
  | lead {st : State σ Req ρ Q A} {i : ℕ} {q : Req}
      (h : st.callers[i]? = some ⟨q, .asking (.ret none)⟩)
      (hfree : ∀ f ∈ st.flights, f.Running → S.key f.req ≠ S.key q) :
      Step S W E st ⟨st.shared, st.flights ++ [⟨q, st.shared, .running (S.fly q)⟩],
        st.callers.set i ⟨q, .waiting st.flights.length⟩⟩
  | work {st : State σ Req ρ Q A} {j : ℕ} {q : Req} {s₀ : σ} {x : Q} {k : A x → Proc Q A ρ} {r : A x}
      {s' : σ} (h : st.flights[j]? = some ⟨q, s₀, .running (.call x k)⟩) (hW : W st.shared x r s') :
      Step S W E st { st with shared := s', flights := st.flights.set j ⟨q, s₀, .running (k r)⟩ }
  | land {st : State σ Req ρ Q A} {j : ℕ} {q : Req} {s₀ : σ} {r : ρ}
      (h : st.flights[j]? = some ⟨q, s₀, .running (.ret r)⟩) :
      Step S W E st { st with flights := st.flights.set j ⟨q, s₀, .landed r⟩ }
  | take {st : State σ Req ρ Q A} {i j : ℕ} {q q' : Req} {s₀ : σ} {r : ρ}
      (h : st.callers[i]? = some ⟨q, .waiting j⟩) (hf : st.flights[j]? = some ⟨q', s₀, .landed r⟩) :
      Step S W E st { st with callers := st.callers.set i ⟨q, .got (some j) r⟩ }
  | cancel {st : State σ Req ρ Q A} {i j : ℕ} {q : Req} (h : st.callers[i]? = some ⟨q, .waiting j⟩) :
      Step S W E st { st with callers := st.callers.set i ⟨q, .gone⟩ }
  | env {st : State σ Req ρ Q A} {s' : σ} (h : E st.shared s') : Step S W E st { st with shared := s' }

/-- What the parts of the whole promise each other. `guar k` is what a flight with key `k` does to
the state and `rely k` what it can live with; `post k s₀` is what its result says if it took off in
`s₀`, and `own k` what a caller's own result says. -/
structure Contract (S : Service κ Req ρ Q A) (W : Proc.Answers σ Q A) (E : σ → σ → Prop) where
  rely : κ → σ → σ → Prop
  guar : κ → σ → σ → Prop
  /-- what anybody may do -/
  any : σ → σ → Prop
  post : κ → σ → σ → ρ → Prop
  own : κ → σ → ρ → Prop
  rely_refl : ∀ k s, rely k s s
  rely_trans : ∀ k s s' s'', rely k s s' → rely k s' s'' → rely k s s''
  any_refl : ∀ s, any s s
  any_trans : ∀ s s' s'', any s s' → any s' s'' → any s s''
  /-- a flight is to the others as the others rely on -/
  guar_rely : ∀ k k' s s', k ≠ k' → guar k s s' → rely k' s s'
  guar_any : ∀ k s s', guar k s s' → any s s'
  env_rely : ∀ k s s', E s s' → rely k s s'
  env_any : ∀ s s', E s s' → any s s'
  /-- a result stays right -/
  post_any : ∀ k s₀ s s' r, any s s' → post k s₀ s r → post k s₀ s' r
  own_any : ∀ k s s' r, any s s' → own k s r → own k s' r
  fly : ∀ q s, (S.fly q).rg W (rely (S.key q)) (guar (S.key q)) (post (S.key q) s) s
  /-- what a caller does by itself is nothing to the flights -/
  ask : ∀ q s, (S.ask q).rg W any (fun s s' => any s s' ∧ ∀ k, rely k s s')
    (fun s o => ∀ r, o = some r → own (S.key q) s r) s

variable {S : Service κ Req ρ Q A} {W : Proc.Answers σ Q A} {E : σ → σ → Prop}

/-- The invariant of the whole. -/
structure Good (C : Contract S W E) (st : State σ Req ρ Q A) : Prop where
  single : ∀ (i j : ℕ) f g, st.flights[i]? = some f → st.flights[j]? = some g → f.Running → g.Running →
    S.key f.req = S.key g.req → i = j
  flying : ∀ f ∈ st.flights, ∀ p, f.stage = .running p →
    p.rg W (C.rely (S.key f.req)) (C.guar (S.key f.req)) (C.post (S.key f.req) f.since) st.shared
  landed : ∀ f ∈ st.flights, ∀ r, f.stage = .landed r → C.post (S.key f.req) f.since st.shared r
  asking : ∀ c ∈ st.callers, ∀ p, c.pc = .asking p →
    p.rg W C.any (fun s s' => C.any s s' ∧ ∀ k, C.rely k s s')
      (fun s o => ∀ r, o = some r → C.own (S.key c.req) s r) st.shared
  waiting : ∀ c ∈ st.callers, ∀ j, c.pc = .waiting j →
    ∃ f, st.flights[j]? = some f ∧ S.key f.req = S.key c.req
  answered : ∀ c ∈ st.callers, ∀ r, c.pc = .got none r → C.own (S.key c.req) st.shared r
  got : ∀ c ∈ st.callers, ∀ j r, c.pc = .got (some j) r → ∃ f, st.flights[j]? = some f ∧
    S.key f.req = S.key c.req ∧ C.post (S.key c.req) f.since st.shared r

theorem good_start (C : Contract S W E) (s : σ) : Good C (State.start s) where
  single i j f g hf := by cases hf
  flying f hf := by cases hf
  landed f hf := by cases hf
  asking c hc := by cases hc
  waiting c hc := by cases hc
  answered c hc := by cases hc
  got c hc := by cases hc

variable {C : Contract S W E} {st st' : State σ Req ρ Q A}

/- The state moved in a way everybody can live with. -/
theorem Good.moved {s' : σ} (h : Good C st) (hany : C.any st.shared s')
    (hrely : ∀ k, C.rely k st.shared s') : Good C { st with shared := s' } where
  single := h.single
  flying f hf p hp := Proc.rg_of_rely (C.rely_trans _) (h.flying f hf p hp) (hrely _)
  landed f hf r hr := C.post_any _ _ _ _ r hany (h.landed f hf r hr)
  asking c hc p hp := Proc.rg_of_rely C.any_trans (h.asking c hc p hp) hany
  waiting := h.waiting
  answered c hc r hr := C.own_any _ _ _ r hany (h.answered c hc r hr)
  got c hc j r hr := by
    obtain ⟨f, hf, hkey, hpost⟩ := h.got c hc j r hr
    exact ⟨f, hf, hkey, C.post_any _ _ _ _ r hany hpost⟩

/- One caller moved, to a place it may be at. -/
theorem Good.caller {i : ℕ} {c : Caller Req ρ Q A} (h : Good C st)
    (hask : ∀ p, c.pc = .asking p → p.rg W C.any (fun s s' => C.any s s' ∧ ∀ k, C.rely k s s')
      (fun s o => ∀ r, o = some r → C.own (S.key c.req) s r) st.shared)
    (hwait : ∀ j, c.pc = .waiting j → ∃ f, st.flights[j]? = some f ∧ S.key f.req = S.key c.req)
    (hown : ∀ r, c.pc = .got none r → C.own (S.key c.req) st.shared r)
    (hgot : ∀ j r, c.pc = .got (some j) r → ∃ f, st.flights[j]? = some f ∧
      S.key f.req = S.key c.req ∧ C.post (S.key c.req) f.since st.shared r) :
    Good C { st with callers := st.callers.set i c } where
  single := h.single
  flying := h.flying
  landed := h.landed
  asking d hd p hp := by
    rcases List.mem_or_eq_of_mem_set hd with hd | rfl
    · exact h.asking d hd p hp
    · exact hask p hp
  waiting d hd j hj := by
    rcases List.mem_or_eq_of_mem_set hd with hd | rfl
    · exact h.waiting d hd j hj
    · exact hwait j hj
  answered d hd r hr := by
    rcases List.mem_or_eq_of_mem_set hd with hd | rfl
    · exact h.answered d hd r hr
    · exact hown r hr
  got d hd j r hr := by
    rcases List.mem_or_eq_of_mem_set hd with hd | rfl
    · exact h.got d hd j r hr
    · exact hgot j r hr

/- One flight in the air moved on, with the same request, and the state with it. -/
theorem Good.flight {j : ℕ} {q : Req} {s₀ s' : σ} {old new : Stage ρ Q A} (h : Good C st)
    (hj : st.flights[j]? = some ⟨q, s₀, old⟩) (hrun : ∃ p, old = .running p) (hany : C.any st.shared s')
    (hrely : ∀ k, S.key q ≠ k → C.rely k st.shared s')
    (hfly : ∀ p, new = .running p →
      p.rg W (C.rely (S.key q)) (C.guar (S.key q)) (C.post (S.key q) s₀) s')
    (hland : ∀ r, new = .landed r → C.post (S.key q) s₀ s' r) :
    Good C ⟨s', st.flights.set j ⟨q, s₀, new⟩, st.callers⟩ := by
  have hlt : j < st.flights.length := (List.getElem?_eq_some_iff.mp hj).1
  -- a flight after the move is the one that moved or stood by
  have hback : ∀ (i : ℕ) f, (st.flights.set j ⟨q, s₀, new⟩)[i]? = some f →
      (i = j ∧ f = ⟨q, s₀, new⟩) ∨ (j ≠ i ∧ st.flights[i]? = some f) := by
    intro i f hf
    by_cases hij : j = i
    · subst hij
      rw [List.getElem?_set_self hlt] at hf
      exact Or.inl ⟨rfl, (Option.some.inj hf).symm⟩
    · rw [List.getElem?_set_ne hij] at hf
      exact Or.inr ⟨hij, hf⟩
  -- and a flight before it is still there, with its request and the state it took off in
  have hkept : ∀ (i : ℕ) f, st.flights[i]? = some f →
      ∃ g, (st.flights.set j ⟨q, s₀, new⟩)[i]? = some g ∧ g.req = f.req ∧ g.since = f.since := by
    intro i f hf
    by_cases hij : j = i
    · subst hij
      cases hj.symm.trans hf
      exact ⟨_, List.getElem?_set_self hlt, rfl, rfl⟩
    · exact ⟨f, (List.getElem?_set_ne hij).trans hf, rfl, rfl⟩
  refine ⟨fun a b f g hf hg hfr hgr hkey => ?_, fun f hf p hp => ?_, fun f hf r hr => ?_,
    fun c hc p hp => Proc.rg_of_rely C.any_trans (h.asking c hc p hp) hany, fun c hc i hi => ?_,
    fun c hc r hr => C.own_any _ _ _ r hany (h.answered c hc r hr), fun c hc i r hr => ?_⟩
  · rcases hback a f hf with ⟨rfl, rfl⟩ | ⟨-, hf'⟩ <;> rcases hback b g hg with ⟨rfl, rfl⟩ | ⟨-, hg'⟩
    · rfl
    · exact h.single a b _ g hj hg' hrun hgr hkey
    · exact h.single a b f _ hf' hj hfr hrun hkey
    · exact h.single a b f g hf' hg' hfr hgr hkey
  · obtain ⟨i, hi⟩ := List.mem_iff_getElem?.mp hf
    rcases hback i f hi with ⟨rfl, rfl⟩ | ⟨hij, hold⟩
    · exact hfly p hp
    · -- two flights in the air have different keys
      have hne : S.key q ≠ S.key f.req := fun hkey => hij (h.single j i _ f hj hold hrun ⟨p, hp⟩ hkey)
      exact Proc.rg_of_rely (C.rely_trans _) (h.flying f (List.mem_of_getElem? hold) p hp) (hrely _ hne)
  · rcases List.mem_or_eq_of_mem_set hf with hf | rfl
    · exact C.post_any _ _ _ _ r hany (h.landed f hf r hr)
    · exact hland r hr
  · obtain ⟨f, hf, hkey⟩ := h.waiting c hc i hi
    obtain ⟨g, hg, hreq, -⟩ := hkept i f hf
    exact ⟨g, hg, hreq ▸ hkey⟩
  · obtain ⟨f, hf, hkey, hpost⟩ := h.got c hc i r hr
    obtain ⟨g, hg, hreq, hsince⟩ := hkept i f hf
    exact ⟨g, hg, hreq ▸ hkey, hsince ▸ C.post_any _ _ _ _ r hany hpost⟩

/- A flight took off, and none with its key was in the air. -/
theorem Good.lead {q : Req} (h : Good C st)
    (hfree : ∀ f ∈ st.flights, f.Running → S.key f.req ≠ S.key q) :
    Good C { st with flights := st.flights ++ [⟨q, st.shared, .running (S.fly q)⟩] } := by
  have hnew : ∀ (a : ℕ) f, (st.flights ++ [⟨q, st.shared, .running (S.fly q)⟩])[a]? = some f →
      st.flights[a]? = some f ∨ (a = st.flights.length ∧ f = ⟨q, st.shared, .running (S.fly q)⟩) := by
    intro a f hf
    by_cases hlt : a < st.flights.length
    · rw [List.getElem?_append_left hlt] at hf
      exact Or.inl hf
    · have hlt' := (List.getElem?_eq_some_iff.mp hf).1
      rw [List.length_append, List.length_singleton] at hlt'
      obtain rfl : a = st.flights.length := by omega
      rw [List.getElem?_concat_length] at hf
      exact Or.inr ⟨rfl, (Option.some.inj hf).symm⟩
  have hkept : ∀ {a : ℕ} {f}, st.flights[a]? = some f →
      (st.flights ++ [⟨q, st.shared, .running (S.fly q)⟩])[a]? = some f := by
    intro a f hf
    rw [List.getElem?_append_left (List.getElem?_eq_some_iff.mp hf).1]
    exact hf
  refine ⟨fun a b f g hf hg hfr hgr hkey => ?_, fun f hf p hp => ?_, fun f hf r hr => ?_, h.asking,
    fun c hc j hj => ?_, h.answered, fun c hc j r hr => ?_⟩
  · rcases hnew a f hf with hf | ⟨rfl, rfl⟩ <;> rcases hnew b g hg with hg | ⟨rfl, rfl⟩
    · exact h.single a b f g hf hg hfr hgr hkey
    · exact absurd hkey (hfree f (List.mem_of_getElem? hf) hfr)
    · exact absurd hkey.symm (hfree g (List.mem_of_getElem? hg) hgr)
    · rfl
  · rcases List.mem_append.mp hf with hf | hf
    · exact h.flying f hf p hp
    · cases List.mem_singleton.mp hf
      cases hp
      exact C.fly q st.shared
  · rcases List.mem_append.mp hf with hf | hf
    · exact h.landed f hf r hr
    · cases List.mem_singleton.mp hf
      cases hr
  · obtain ⟨f, hf, hkey⟩ := h.waiting c hc j hj
    exact ⟨f, hkept hf, hkey⟩
  · obtain ⟨f, hf, hpost⟩ := h.got c hc j r hr
    exact ⟨f, hkept hf, hpost⟩

theorem step_good (h : Good C st) (hs : Step S W E st st') :
    Good C st' ∧ C.any st.shared st'.shared := by
  cases hs with
  | arrive q =>
    refine ⟨⟨h.single, h.flying, h.landed, fun c hc p hp => ?_, fun c hc j hj => ?_,
      fun c hc r hr => ?_, fun c hc j r hr => ?_⟩, C.any_refl _⟩ <;>
      rcases List.mem_append.mp hc with hc | hc
    · exact h.asking c hc p hp
    · cases List.mem_singleton.mp hc
      cases hp
      exact C.ask q st.shared
    · exact h.waiting c hc j hj
    · cases List.mem_singleton.mp hc
      cases hj
    · exact h.answered c hc r hr
    · cases List.mem_singleton.mp hc
      cases hr
    · exact h.got c hc j r hr
    · cases List.mem_singleton.mp hc
      cases hr
  | ask hi hW =>
    have hrg := h.asking _ (List.mem_of_getElem? hi) _ rfl
    obtain ⟨⟨hany, hrely⟩, hk⟩ := hrg st.shared (C.any_refl _) _ _ hW
    refine ⟨(h.moved hany hrely).caller (fun p hp => ?_) (fun j hj => (by cases hj))
      (fun r hr => (by cases hr)) (fun j r hr => (by cases hr)), hany⟩
    cases hp
    exact hk
  | answer hi =>
    have hrg := h.asking _ (List.mem_of_getElem? hi) _ rfl
    refine ⟨h.caller (fun p hp => (by cases hp)) (fun j hj => (by cases hj)) (fun r hr => ?_)
      (fun j r hr => (by cases hr)), C.any_refl _⟩
    cases hr
    exact hrg st.shared (C.any_refl _) _ rfl
  | join hi hf hrun hkey =>
    refine ⟨h.caller (fun p hp => (by cases hp)) (fun j hj => ?_) (fun r hr => (by cases hr))
      (fun j r hr => (by cases hr)), C.any_refl _⟩
    cases hj
    exact ⟨_, hf, hkey⟩
  | lead hi hfree =>
    refine ⟨(h.lead hfree).caller (fun p hp => (by cases hp)) (fun j hj => ?_)
      (fun r hr => (by cases hr)) (fun j r hr => (by cases hr)), C.any_refl _⟩
    cases hj
    exact ⟨_, List.getElem?_concat_length, rfl⟩
  | work hj hW =>
    have hrg := h.flying _ (List.mem_of_getElem? hj) _ rfl
    obtain ⟨hguar, hk⟩ := hrg st.shared (C.rely_refl _ _) _ _ hW
    have hany := C.guar_any _ _ _ hguar
    refine ⟨h.flight hj ⟨_, rfl⟩ hany (fun k hne => C.guar_rely _ _ _ _ hne hguar) (fun p hp => ?_)
      (fun r hr => (by cases hr)), hany⟩
    cases hp
    exact hk
  | land hj =>
    have hrg := h.flying _ (List.mem_of_getElem? hj) _ rfl
    refine ⟨h.flight hj ⟨_, rfl⟩ (C.any_refl _) (fun k _ => C.rely_refl k _) (fun p hp => (by cases hp))
      (fun r hr => ?_), C.any_refl _⟩
    cases hr
    exact hrg st.shared (C.rely_refl _ _)
  | take hi hf =>
    obtain ⟨f, hf', hkey⟩ := h.waiting _ (List.mem_of_getElem? hi) _ rfl
    cases hf.symm.trans hf'
    refine ⟨h.caller (fun p hp => (by cases hp)) (fun j hj => (by cases hj)) (fun r hr => (by cases hr))
      (fun j r hr => ?_), C.any_refl _⟩
    cases hr
    refine ⟨_, hf, hkey, ?_⟩
    rw [← hkey]
    exact h.landed _ (List.mem_of_getElem? hf) _ rfl
  | cancel hi =>
    exact ⟨h.caller (fun p hp => (by cases hp)) (fun j hj => (by cases hj)) (fun r hr => (by cases hr))
      (fun j r hr => (by cases hr)), C.any_refl _⟩
  | env hE => exact ⟨h.moved (C.env_any _ _ hE) fun k => C.env_rely k _ _ hE, C.env_any _ _ hE⟩

/-- The rule for runs: the invariant survives, and the state has moved as anybody may move it. -/
theorem run_good (h : Good C st) (hrun : Relation.ReflTransGen (Step S W E) st st') :
    Good C st' ∧ C.any st.shared st'.shared := by
  induction hrun with
  | refl => exact ⟨h, C.any_refl _⟩
  | tail _ hs ih =>
    obtain ⟨hgood, hany⟩ := step_good ih.1 hs
    exact ⟨hgood, C.any_trans _ _ _ ih.2 hany⟩

end Lib.SingleFlight
