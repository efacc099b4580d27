import VkCocoon.Lib.Pool
import VkCocoon.Ops

/-!
# VNC ports of macOS guests

A macOS guest serves its display on a host port, and `macosVNC` reserves one port for each pod. A
launch claims a free port of the range; the create of a guest that is already running records the
display its record reports. The sections that untrack a pod give its port back.
-/

namespace VkCocoon
open Lib

def macosVNCPortBase : ℕ := 5900
def macosVNCPortSpan : ℕ := 100

namespace Tables
variable (t : Tables)

/-- `used[port]` -/
def vncUsed (port : ℕ) : Bool := t.macosVNC.toList.any (·.2 == port)

/-- The port of the range that a claim takes: the preferred one if it is free, else the first. -/
def freeVNCPort (preferred : ℤ) : Option ℕ :=
  if (macosVNCPortBase : ℤ) ≤ preferred ∧ preferred < macosVNCPortBase + macosVNCPortSpan ∧
      t.vncUsed preferred.toNat = false then some preferred.toNat
  else ((List.range macosVNCPortSpan).map (macosVNCPortBase + ·)).find? fun port => !t.vncUsed port

/-- `password` is `MacosVNCPassword != ""`; the answer 0 is no port. -/
def claimMacosVNCPort (password : Bool) (key : Key) (preferred : ℤ) : Tables × ℕ :=
  if !password then (t, 0)
  else
    match t.macosVNC.get key with
    | some port => (t, port)
    | none =>
      match t.freeVNCPort preferred with
      | some port => ({ t with macosVNC := t.macosVNC.set key port }, port)
      | none => (t, 0)

/-- `vnc` is the display in the record of a live guest. -/
def adoptMacosVNCPort (key : Key) (vnc : ℤ) : Tables × ℕ :=
  if vnc < 0 then ({ t with macosVNC := t.macosVNC.del key }, 0)
  else
    let port := macosVNCPortBase + vnc.toNat
    ({ t with macosVNC := t.macosVNC.set key port }, port)

/-! ### A claim takes a free port of the range -/

theorem vncUsed_iff {port : ℕ} : t.vncUsed port = true ↔ ∃ key, t.macosVNC.get key = some port := by
  unfold vncUsed
  rw [List.any_eq_true]
  constructor
  · rintro ⟨kv, hkv, hport⟩
    rw [beq_iff_eq] at hport
    exact ⟨kv.1, by rw [← hport]; exact (GoMap.mem_toList t.macosVNC kv.1 kv.2).mp hkv⟩
  · rintro ⟨key, hkey⟩
    exact ⟨(key, port), (GoMap.mem_toList t.macosVNC key port).mpr hkey, beq_self_eq_true port⟩

theorem freeVNCPort_spec {preferred : ℤ} {port : ℕ} (h : t.freeVNCPort preferred = some port) :
    macosVNCPortBase ≤ port ∧ port < macosVNCPortBase + macosVNCPortSpan ∧ t.vncUsed port = false := by
  unfold freeVNCPort at h
  split at h
  next hc =>
    obtain ⟨hlo, hhi, hfree⟩ := hc
    cases h
    refine ⟨?_, ?_, hfree⟩ <;> omega
  next =>
    have hmem := List.mem_of_find?_eq_some h
    have hfree := List.find?_some h
    obtain ⟨d, hd, rfl⟩ := List.mem_map.mp hmem
    rw [List.mem_range] at hd
    refine ⟨by omega, by omega, ?_⟩
    simpa using hfree

theorem claimMacosVNCPort_cases (password : Bool) (key : Key) (preferred : ℤ) :
    (t.claimMacosVNCPort password key preferred).1 = t ∧
      ((t.claimMacosVNCPort password key preferred).2 = 0 ∨
        t.macosVNC.get key = some (t.claimMacosVNCPort password key preferred).2) ∨
    ∃ port, t.freeVNCPort preferred = some port ∧
      t.claimMacosVNCPort password key preferred =
        ({ t with macosVNC := t.macosVNC.set key port }, port) := by
  unfold claimMacosVNCPort
  split
  · exact Or.inl ⟨rfl, Or.inl rfl⟩
  · split
    next port hport => exact Or.inl ⟨rfl, Or.inr hport⟩
    next =>
      split
      next port hfree => exact Or.inr ⟨port, hfree, rfl⟩
      next => exact Or.inl ⟨rfl, Or.inl rfl⟩

end Tables

/-! ### The other sections only give ports back -/

section Run
variable {S : Type} [DecidableEq S] (snapshot : LifecycleStatus → S)
open Tables

theorem untrackLocked_macosVNC (t : Tables) (key : Key) :
    (t.untrackLocked key).macosVNC = t.macosVNC.del key := by
  simp only [untrackLocked]
  rw [dropVMLocked_eq]

theorem failCreate_macosVNC (t : Tables) (pod : Pod) (absent : Bool) :
    (t.failCreate pod absent).macosVNC = t.macosVNC ∨
      (t.failCreate pod absent).macosVNC = t.macosVNC.del pod.key := by
  unfold failCreate
  split
  · exact Or.inl rfl
  · dsimp only
    split
    · exact Or.inr rfl
    · split <;> exact Or.inl rfl

theorem run_macosVNC (t : Tables) (op : TableOp) :
    (op.run snapshot t).macosVNC = t.macosVNC ∨
      ∃ key, (op.run snapshot t).macosVNC = t.macosVNC.del key := by
  cases hun : op.untracks t with
  | some key =>
    obtain ⟨names, h⟩ := run_of_untracks snapshot hun
    rw [h]
    exact Or.inr ⟨key, untrackLocked_macosVNC t key⟩
  | none =>
    by_cases hfail : ∃ pod absent, op = .failCreate pod absent
    · obtain ⟨pod, absent, rfl⟩ := hfail
      exact (failCreate_macosVNC t pod absent).imp_right fun h => ⟨pod.key, h⟩
    · exact Or.inl ((run_leaves snapshot hun).macosVNC fun pod absent h => hfail ⟨pod, absent, h⟩)

end Run

/-! ### Runs -/

/-- The tables, and what claims have handed out so far. -/
structure Reservations where
  tables : Tables
  handed : List (Key × ℕ)

inductive VNCEvent where
  | claim (key : Key) (preferred : ℤ)
  | adopt (key : Key) (vnc : ℤ)
  | table (op : TableOp)
deriving DecidableEq, Repr

/-- No two pods hold one port, and a port that a claim handed out and that is held is in the
range. -/
structure NodeUnique (r : Reservations) : Prop where
  unique : ∀ k k' port, r.tables.macosVNC.get k = some port → r.tables.macosVNC.get k' = some port →
    k = k'
  range : ∀ key port, (key, port) ∈ r.handed → r.tables.macosVNC.get key = some port →
    macosVNCPortBase ≤ port ∧ port < macosVNCPortBase + macosVNCPortSpan

/-- A live guest serves a display of the range that is reserved for no other pod. -/
def OwnDisplay (r : Reservations) : VNCEvent → Prop
  | .adopt key vnc => vnc < 0 ∨ (vnc < macosVNCPortSpan ∧
    ∀ kv ∈ r.tables.macosVNC.toList, kv.2 = macosVNCPortBase + vnc.toNat → kv.1 = key)
  | _ => True

instance (r : Reservations) : (e : VNCEvent) → Decidable (OwnDisplay r e)
  | .adopt key vnc => inferInstanceAs (Decidable (vnc < 0 ∨ (vnc < macosVNCPortSpan ∧
    ∀ kv ∈ r.tables.macosVNC.toList, kv.2 = macosVNCPortBase + vnc.toNat → kv.1 = key)))
  | .claim _ _ | .table _ => .isTrue trivial

section Runs
variable {S : Type} [DecidableEq S] (snapshot : LifecycleStatus → S) (password : Bool)

def Reservations.step (r : Reservations) : VNCEvent → Reservations
  | .claim key preferred =>
    match r.tables.claimMacosVNCPort password key preferred with
    | (t, port) => ⟨t, r.handed ++ [(key, port)]⟩
  | .adopt key vnc => { r with tables := (r.tables.adoptMacosVNCPort key vnc).1 }
  | .table op => { r with tables := op.run snapshot r.tables }

def vncMachine : Machine Reservations VNCEvent := ⟨fun r e => some (r.step snapshot password e)⟩

/-- Every held port is of the range and held once. -/
structure Ports (m : GoMap Key ℕ) : Prop where
  unique : ∀ k k' port, m.get k = some port → m.get k' = some port → k = k'
  range : ∀ key port, m.get key = some port →
    macosVNCPortBase ≤ port ∧ port < macosVNCPortBase + macosVNCPortSpan

variable {m : GoMap Key ℕ}

theorem Ports.del (h : Ports m) (key : Key) : Ports (m.del key) := by
  have hold : ∀ k port, (m.del key).get k = some port → m.get k = some port := by
    intro k port hk
    rw [GoMap.get_del] at hk
    split at hk
    · cases hk
    · exact hk
  refine ⟨fun k k' port hk hk' => ?_, fun k port hk => h.range k port (hold k port hk)⟩
  exact h.unique k k' port (hold k port hk) (hold k' port hk')

theorem Ports.set (h : Ports m) {key : Key} {port : ℕ} (hlo : macosVNCPortBase ≤ port)
    (hhi : port < macosVNCPortBase + macosVNCPortSpan) (hfree : ∀ k, m.get k = some port → k = key) :
    Ports (m.set key port) := by
  have hcases : ∀ k p, (m.set key port).get k = some p → (k = key ∧ p = port) ∨ m.get k = some p := by
    intro k p hk
    rw [GoMap.get_set] at hk
    split at hk
    next hkey =>
      cases hk
      exact Or.inl ⟨hkey, rfl⟩
    next => exact Or.inr hk
  constructor
  · intro k k' p hk hk'
    rcases hcases k p hk with ⟨rfl, rfl⟩ | hold <;> rcases hcases k' p hk' with ⟨rfl, hp⟩ | hold'
    · rfl
    · exact (hfree k' hold').symm
    · exact hfree k (hp ▸ hold)
    · exact h.unique k k' p hold hold'
  · intro k p hk
    rcases hcases k p hk with ⟨-, rfl⟩ | hold
    · exact ⟨hlo, hhi⟩
    · exact h.range k p hold

theorem step_ports {r : Reservations} {e : VNCEvent} (h : Ports r.tables.macosVNC)
    (hg : OwnDisplay r e) : Ports (r.step snapshot password e).tables.macosVNC := by
  cases e with
  | claim key preferred =>
    rcases r.tables.claimMacosVNCPort_cases password key preferred with ⟨heq, -⟩ | ⟨port, hport, heq⟩
    · simp only [Reservations.step, heq]
      exact h
    · obtain ⟨hlo, hhi, hfree⟩ := r.tables.freeVNCPort_spec hport
      simp only [Reservations.step, heq]
      refine h.set hlo hhi fun k hk => ?_
      have hused := r.tables.vncUsed_iff.mpr ⟨k, hk⟩
      rw [hfree] at hused
      cases hused
  | adopt key vnc =>
    simp only [Reservations.step, Tables.adoptMacosVNCPort]
    split
    · exact h.del key
    next hneg =>
      rcases hg with hg | ⟨hspan, hfree⟩
      · exact absurd hg hneg
      · refine h.set (by omega) (by omega) fun k hk => ?_
        exact hfree (k, _) ((GoMap.mem_toList _ _ _).mpr hk) rfl
  | table op =>
    rcases run_macosVNC snapshot r.tables op with heq | ⟨key, heq⟩
    · simp only [Reservations.step, heq]
      exact h
    · simp only [Reservations.step, heq]
      exact h.del key

/-- In every run from a new provider in which each live guest serves a display of its own, the
reservations are unique on the node. -/
theorem vnc_reservations_unique (es : List VNCEvent) (r : Reservations)
    (hg : (vncMachine snapshot password).Guarded OwnDisplay ⟨Tables.new, []⟩ es)
    (h : (vncMachine snapshot password).exec ⟨Tables.new, []⟩ es = some r) : NodeUnique r := by
  have hnew : Ports (⟨Tables.new, []⟩ : Reservations).tables.macosVNC := by
    constructor
    · intro k k' port hk
      cases hk
    · intro key port hk
      cases hk
  have hstep : ∀ s e s', Ports s.tables.macosVNC → OwnDisplay s e →
      (vncMachine snapshot password).step s e = some s' → Ports s'.tables.macosVNC := by
    intro s e s' hs hge hnext
    cases hnext
    exact step_ports snapshot password hs hge
  have hports : Ports r.tables.macosVNC :=
    (vncMachine snapshot password).exec_invariant hstep hnew hg h
  exact ⟨hports.unique, fun key port _ hk => hports.range key port hk⟩

/- A guest serves the third display; the pods around it get the ports beside it. -/
def vncTrace : List VNCEvent :=
  [.claim "ns/a" 0, .adopt "ns/b" 2, .claim "ns/c" 5902, .claim "ns/d" 5950, .table (.forgetPod "ns/a"),
   .claim "ns/e" 0]

theorem vnc_reservations_unique_trace :
    ∃ r, (vncMachine (id : LifecycleStatus → LifecycleStatus) true).exec ⟨Tables.new, []⟩ vncTrace =
        some r ∧
      r.handed = [("ns/a", 5900), ("ns/c", 5901), ("ns/d", 5950), ("ns/e", 5900)] ∧ NodeUnique r := by
  have hrun : ((vncMachine (id : LifecycleStatus → LifecycleStatus) true).exec ⟨Tables.new, []⟩
      vncTrace).map (·.handed) =
      some [("ns/a", 5900), ("ns/c", 5901), ("ns/d", 5950), ("ns/e", 5900)] := by decide +kernel
  obtain ⟨r, hr, hhanded⟩ := Option.map_eq_some_iff.mp hrun
  exact ⟨r, hr, hhanded, vnc_reservations_unique _ true vncTrace r (by decide +kernel) hr⟩

/- The first port is claimed for one pod before the guest that serves it is found for another. -/
theorem vnc_reservation_shared :
    ¬∀ (es : List VNCEvent) (r : Reservations),
      (vncMachine (id : LifecycleStatus → LifecycleStatus) true).exec ⟨Tables.new, []⟩ es = some r →
      NodeUnique r := by
  intro h
  have hrun : ((vncMachine (id : LifecycleStatus → LifecycleStatus) true).exec ⟨Tables.new, []⟩
      [.claim "ns/a" 0, .adopt "ns/b" 0]).map (fun r => (r.tables.macosVNC.get "ns/a",
        r.tables.macosVNC.get "ns/b")) = some (some 5900, some 5900) := by decide +kernel
  obtain ⟨r, hr, hports⟩ := Option.map_eq_some_iff.mp hrun
  obtain ⟨ha, hb⟩ := Prod.mk.inj hports
  have hkey := (h _ r hr).unique "ns/a" "ns/b" 5900 ha hb
  revert hkey
  decide

end Runs
end VkCocoon
