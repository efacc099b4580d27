import VkCocoon.Lib.Proc
import VkCocoon.Lib.Scan

/-!
# Saving over a stale snapshot

A save that was killed leaves its name taken, sometimes with a child that still holds the snapshot.
`SnapshotSave` then reads the holder out of the rejection, removes it as soon as its lease is
released, and saves again.
-/

namespace VkCocoon.Save
open Lib Lib.Scan

abbrev Text := List Char

/-- `unicode.IsSpace` -/
def isSpace (c : Char) : Bool :=
  ['\t', '\n', '\x0b', '\x0c', '\r', ' ', '\u0085', '\u00a0', '\u1680', '\u2028', '\u2029', '\u202f',
    '\u205f', '\u3000'].contains c || ('\u2000' ≤ c && c ≤ '\u200a')

def trimSpace (s : Text) : Text := ((s.dropWhile isSpace).reverse.dropWhile isSpace).reverse

/-- `unicode.ToLower`, as far as its result is ASCII: the phrases are. -/
def lower (c : Char) : Char :=
  if c = '\u0130' then 'i' else if c = '\u212a' then 'k' else c.toLower

def containsAny (s : Text) (phrases : List Text) : Bool :=
  phrases.any fun p => occurs p (s.map lower)

def inUseBy : Text := "already in use by ".toList

def heldBy : Text := "held by ".toList

def snapshotNameTaken : List Text := ["already exists".toList, "already in use by".toList]

def snapshotLeaseHeld : List Text := ["is in use by an active".toList]

/-- Durations in milliseconds. -/
def staleSnapshotRmBudget : ℕ := 30000

def staleSnapshotRmDelay : ℕ := 500

/-- `strings.TrimSuffix(s, ")")` -/
def trimParen (s : Text) : Text := if s.getLast? = some ')' then s.dropLast else s

/-- A turn of the loop in `snapshotNameHolderID`, empty where it goes on. -/
def holderAfter (marker out : Text) : Text :=
  match cut marker out with
  | none => []
  | some (_, after) =>
    match words isSpace after with
    | [] => []
    | field :: _ => trimParen field

def firstHolder (out : Text) : List Text → Text
  | [] => []
  | marker :: markers =>
    if (holderAfter marker out).isEmpty then firstHolder out markers else holderAfter marker out

def snapshotNameHolderID (out : Text) : Text := firstHolder out [inUseBy, heldBy]

/-! ### The calls -/

/-- A command that failed: its error and its output. -/
structure CmdFailure where
  err : String
  out : Text
deriving DecidableEq, Repr

inductive SaveCall where
  | save (vmName vmID : Text)
  | rm (ref : Text)
  | now
  | sleep (ms : ℕ)
deriving DecidableEq, Repr

abbrev SaveAns : SaveCall → Type
  | .save _ _ => Option CmdFailure
  | .rm _ => Option CmdFailure
  | .now => ℕ
  | .sleep _ => Option String

abbrev SaveCode := Proc SaveCall SaveAns

def cocoon (q : SaveCall) : SaveCode (SaveAns q) := Proc.ask q

def cocoonCmdError (op : String) (ref : Text) (f : CmdFailure) : String :=
  "cocoon " ++ op ++ " " ++ String.ofList ref ++ ": " ++ f.err ++ " (output: " ++
    String.ofList (trimSpace f.out) ++ ")"

/-- The loop of `removeStaleSnapshot`; `none` if the turns are used up. -/
def removeUntil (ref : Text) (deadline : ℕ) : ℕ → SaveCode (Option (Option String))
  | 0 => return none
  | turns + 1 => do
    match ← cocoon (.rm ref) with
    | none => return some none
    | some f =>
      let trimmed := trimSpace f.out
      if !containsAny trimmed snapshotLeaseHeld then
        return some (some ("rm failed: " ++ f.err ++ " (output: " ++ String.ofList trimmed ++ ")"))
      else if !((← cocoon .now) < deadline) then
        return some (some ("rm still lease-blocked after 30s: " ++ f.err ++ " (output: " ++
          String.ofList trimmed ++ ")"))
      else
        match ← cocoon (.sleep staleSnapshotRmDelay) with
        | some err => return some (some err)
        | none => removeUntil ref deadline turns

def removeStaleSnapshot (turns : ℕ) (ref : Text) : SaveCode (Option (Option String)) := do
  let start ← cocoon .now
  removeUntil ref (start + staleSnapshotRmBudget) turns

def snapshotSave (turns : ℕ) (vmName vmID : Text) : SaveCode (Option (Option String)) := do
  match ← cocoon (.save vmName vmID) with
  | none => return some none
  | some f =>
    if !containsAny f.out snapshotNameTaken then
      return some (some (cocoonCmdError "snapshot save" vmName f))
    else
      let holder :=
        if (snapshotNameHolderID f.out).isEmpty then vmName else snapshotNameHolderID f.out
      match ← removeStaleSnapshot turns holder with
      | none => return none
      | some (some err) =>
        return some (some ("cocoon snapshot save " ++ String.ofList vmName ++ ": name held by " ++
          String.ofList holder ++ ": " ++ err))
      | some none =>
        match ← cocoon (.save vmName vmID) with
        | some f => return some (some (cocoonCmdError "snapshot save (after rm)" vmName f))
        | none => return some none

/-! ### The snapshots of the node -/

/-- An id stands alone in a message. -/
structure IsId (id : Text) : Prop where
  ne_nil : id ≠ []
  solid : ∀ c ∈ id, isSpace c = false
  plain : id.getLast? ≠ some ')'

structure Snap where
  id : Text
  name : Text
  /-- the VM it is a snapshot of -/
  vm : Text
  complete : Bool
  savedAt : ℕ
deriving DecidableEq, Repr

structure Store where
  snaps : List Snap
  /-- what was removed by commands of the save; the source has no such record -/
  removed : List Snap
  clock : ℕ
  ids : ∀ x ∈ snaps, ∀ y ∈ snaps, x.id = y.id → x = y
  names : ∀ x ∈ snaps, ∀ y ∈ snaps, x.name = y.name → x = y
  /-- a reference that is an id is not a name as well -/
  apart : ∀ x ∈ snaps, ∀ y ∈ snaps, x.id ≠ y.name
  proper : ∀ x ∈ snaps, IsId x.id

/-- What `cocoon` says when the name is taken by `holder`: in two of its phrases it names it. -/
def Rejects (holder : Snap) (out : Text) : Prop :=
  containsAny out snapshotNameTaken = true ∧
    ((∃ pre post, out = pre ++ (inUseBy ++ (holder.id ++ post)) ∧
        occurs inUseBy (pre ++ inUseBy.dropLast) = false ∧ post.head?.all isSpace = true) ∨
      (occurs inUseBy out = false ∧ ∃ pre post, out = pre ++ (heldBy ++ (holder.id ++ ')' :: post)) ∧
        occurs heldBy (pre ++ heldBy.dropLast) = false ∧ post.head?.all isSpace = true) ∨
      (occurs inUseBy out = false ∧ occurs heldBy out = false))

namespace Store

def Has (s : Store) (x : Snap) : Prop := x ∈ s.snaps

/-- The holder of the name is the same. -/
def SameName (name : Text) (s s' : Store) : Prop := ∀ x, x.name = name → (s.Has x ↔ s'.Has x)

def Free (name : Text) (s : Store) : Prop := ∀ x, x.name = name → ¬ s.Has x

/-- Others work on other names, and time passes. -/
structure Idles (name : Text) (s s' : Store) : Prop where
  same : SameName name s s'
  removed : s'.removed = s.removed
  clock : s.clock ≤ s'.clock

/-- The snapshot a reference means: the one with this id, else the one with this name. -/
def Resolves (s : Store) (ref : Text) (x : Snap) : Prop :=
  s.Has x ∧ (x.id = ref ∨ x.name = ref ∧ ∀ y, s.Has y → y.id ≠ ref)

end Store

/-- What the commands can do while `name` is saved.  A save that fails may have been killed after it
took the name. -/
def answers (name : Text) : Proc.Answers Store SaveCall SaveAns
  | s, .save vmName vmID, r, s' =>
    s'.removed = s.removed ∧ s.clock ≤ s'.clock ∧
      match r with
      | none => s.Free vmName ∧ ∃ x, s'.Has x ∧ x.name = vmName ∧ x.vm = vmID ∧ x.complete = true ∧
          s.clock ≤ x.savedAt
      | some f => (s.Free vmName ∧ containsAny f.out snapshotNameTaken = false) ∨
          (s.SameName vmName s' ∧ ∃ holder, s.Has holder ∧ holder.name = vmName ∧
            (containsAny f.out snapshotNameTaken = false ∨ Rejects holder f.out))
  | s, .rm ref, r, s' =>
    s.clock ≤ s'.clock ∧
      match r with
      | none => ∃ x, s.Resolves ref x ∧ s'.removed = s.removed ++ [x] ∧ ¬ s'.Has x ∧
          ∀ y, y.name = name → y ≠ x → (s.Has y ↔ s'.Has y)
      | some _ => s.Idles name s'
  | s, .now, r, s' => s.Idles name s' ∧ r = s'.clock
  | s, .sleep ms, r, s' => s.Idles name s' ∧ (r = none → s.clock + ms ≤ s'.clock)

/-- Whatever the commands answer: time passes with every call, and a sleep that is not cut short takes
its time. -/
def timed : Proc.Answers ℕ SaveCall SaveAns
  | t, .now, r, t' => t ≤ t' ∧ r = t'
  | t, .sleep ms, r, t' => t ≤ t' ∧ (r = none → t + ms ≤ t')
  | t, _, _, t' => t ≤ t'

/-! ### The loop ends -/

section Timed
variable {name vmID ref : Text} {deadline turns t : ℕ}

/-- One turn; the next one starts a delay after a time before the deadline. -/
theorem removeUntil_timed_turn
    (hmore : ∀ t₃ now, t ≤ now → now < deadline → now + staleSnapshotRmDelay ≤ t₃ →
      (removeUntil ref deadline turns).wp timed (fun _ r => r ≠ none) t₃) :
    (removeUntil ref deadline (turns + 1)).wp timed (fun _ r => r ≠ none) t := by
  refine Proc.wp_ask_bind.mpr fun f t₁ h₁ => ?_
  have hrm : t ≤ t₁ := h₁
  cases f with
  | none => exact nofun
  | some f =>
    dsimp only
    split
    · exact nofun
    · refine Proc.wp_ask_bind.mpr fun now t₂ ⟨h₂, hnow⟩ => ?_
      split
      · exact nofun
      next hearly =>
        refine Proc.wp_ask_bind.mpr fun err t₃ ⟨h₃, hslept⟩ => ?_
        cases err with
        | some err => exact nofun
        | none =>
          have hbefore : now < deadline := by simpa using hearly
          subst hnow
          exact hmore t₃ now (Nat.le_trans hrm h₂) hbefore (hslept rfl)

/-- A turn is left for every delay up to the deadline. -/
theorem removeUntil_returns (hturns : deadline ≤ t + turns * staleSnapshotRmDelay) :
    (removeUntil ref deadline (turns + 1)).wp timed (fun _ r => r ≠ none) t := by
  induction turns generalizing t with
  | zero =>
    refine removeUntil_timed_turn fun t₃ now hle hlt _ => ?_
    omega
  | succ turns ih =>
    refine removeUntil_timed_turn fun t₃ now hle _ hslept => ih ?_
    rw [Nat.succ_mul] at hturns
    omega

theorem removeStaleSnapshot_returns :
    (removeStaleSnapshot 61 ref).wp timed (fun _ r => r ≠ none) t := by
  refine Proc.wp_ask_bind.mpr fun start t₁ ⟨_, hstart⟩ => removeUntil_returns ?_
  rw [hstart]
  exact Nat.le_refl _

theorem snapshotSave_returns : (snapshotSave 61 name vmID).wp timed (fun _ r => r ≠ none) t := by
  refine Proc.wp_ask_bind.mpr fun f t₁ _ => ?_
  cases f with
  | none => exact nofun
  | some f =>
    dsimp only
    split
    · exact nofun
    · refine Proc.wp_seq removeStaleSnapshot_returns fun t₂ r hr => ?_
      match r with
      | none => exact absurd rfl hr
      | some (some err) => exact nofun
      | some none =>
        refine Proc.wp_ask_bind.mpr fun f' t₃ _ => ?_
        cases f' <;> exact nofun

end Timed

/-! ### The holder in the message -/

theorem trimParen_id {id : Text} (h : IsId id) : trimParen id = id := by
  rw [trimParen, if_neg h.plain]

theorem trimParen_paren (id : Text) : trimParen (id ++ [')']) = id := by
  simp [trimParen]

theorem holderAfter_cut {marker out pre after id post : Text} (hcut : cut marker out = some (pre, after))
    (hafter : after = id ++ post) (hid : IsId id) (hpost : post.head?.all isSpace = true) :
    holderAfter marker out = id := by
  obtain ⟨rest, hwords⟩ := words_head hid.ne_nil hid.solid hpost
  simp only [holderAfter, hcut, hafter, hwords, trimParen_id hid]

theorem holderAfter_paren {marker out pre after id post : Text} (hcut : cut marker out = some (pre, after))
    (hafter : after = id ++ ')' :: post) (hid : IsId id) (hpost : post.head?.all isSpace = true) :
    holderAfter marker out = id := by
  have hsolid : ∀ c ∈ id ++ [')'], isSpace c = false := by
    intro c hc
    rcases List.mem_append.mp hc with hc | hc
    · exact hid.solid c hc
    · rw [List.mem_singleton.mp hc]
      decide
  obtain ⟨rest, hwords⟩ := words_head (by simp) hsolid hpost
  rw [List.append_assoc, List.singleton_append] at hwords
  simp only [holderAfter, hcut, hafter, hwords, trimParen_paren]

theorem holderAfter_absent {marker out : Text} (h : occurs marker out = false) :
    holderAfter marker out = [] := by
  simp only [holderAfter, cut_eq_none h]

/-- A rejection leads to its holder, or to none. -/
theorem snapshotNameHolderID_of_rejects {holder : Snap} {out : Text} (hid : IsId holder.id)
    (h : Rejects holder out) :
    snapshotNameHolderID out = holder.id ∨ snapshotNameHolderID out = [] := by
  have hne : holder.id.isEmpty = false := by simp [hid.ne_nil]
  obtain ⟨-, ⟨pre, post, hout, hfirst, hpost⟩ | ⟨hno, pre, post, hout, hfirst, hpost⟩ | ⟨hno, hno'⟩⟩ := h
  · have hcut := cut_append (by decide) hfirst (holder.id ++ post)
    rw [← hout] at hcut
    left
    simp [snapshotNameHolderID, firstHolder, holderAfter_cut hcut rfl hid hpost, hne]
  · have hcut := cut_append (by decide) hfirst (holder.id ++ ')' :: post)
    rw [← hout] at hcut
    left
    simp [snapshotNameHolderID, firstHolder, holderAfter_absent hno, holderAfter_paren hcut rfl hid hpost, hne]
  · right
    simp [snapshotNameHolderID, firstHolder, holderAfter_absent hno, holderAfter_absent hno']

/- The rejections `cocoon` prints. -/
example : snapshotNameHolderID
    "Error: save snapshot: snapshot name \"vk-ns-demo-0\" already in use by MPT5A6ZS".toList =
      "MPT5A6ZS".toList := by decide +kernel

example : snapshotNameHolderID
    "Error: snapshot name \"vk-ns-demo-0\" already exists (held by MPT5A6ZS)".toList =
      "MPT5A6ZS".toList := by decide +kernel

/-! ### What is removed -/

namespace Store
variable {name ref : Text} {s s' s'' : Store} {x holder : Snap}

theorem Idles.refl (s : Store) : s.Idles name s := ⟨fun _ _ => Iff.rfl, rfl, Nat.le_refl _⟩

theorem Idles.trans (h : s.Idles name s') (h' : s'.Idles name s'') : s.Idles name s'' where
  same x hx := (h.same x hx).trans (h'.same x hx)
  removed := h'.removed.trans h.removed
  clock := Nat.le_trans h.clock h'.clock

/-- A reference to the holder: its id, or the name it holds. -/
def RefersTo (name ref : Text) (holder : Snap) : Prop :=
  holder.name = name ∧ (ref = holder.id ∨ ref = name)

theorem RefersTo.resolves (h : RefersTo name ref holder) (hhas : s.Has holder) (hx : s.Resolves ref x) :
    x = holder := by
  obtain ⟨hname, hid | hid⟩ := h
  · obtain ⟨hmem, heq | ⟨-, hno⟩⟩ := hx
    · exact s.ids x hmem holder hhas (heq.trans hid)
    · exact absurd hid.symm (hno holder hhas)
  · obtain ⟨hmem, heq | ⟨heq, -⟩⟩ := hx
    · exact absurd (heq.trans (hid.trans hname.symm)) (s.apart x hmem holder hhas)
    · exact s.names x hmem holder hhas (heq.trans (hid.trans hname.symm))

/-- A removal by this reference takes the holder, and the name is free. -/
theorem RefersTo.removed (h : RefersTo name ref holder) (hhas : s.Has holder)
    (hrm : ∃ x, s.Resolves ref x ∧ s'.removed = s.removed ++ [x] ∧ ¬ s'.Has x ∧
      ∀ y, y.name = name → y ≠ x → (s.Has y ↔ s'.Has y)) :
    s'.removed = s.removed ++ [holder] ∧ s'.Free name := by
  obtain ⟨x, hx, hremoved, hgone, hrest⟩ := hrm
  have hxh : x = holder := h.resolves hhas hx
  subst hxh
  refine ⟨hremoved, fun y hy hmem => ?_⟩
  by_cases hyx : y = x
  · exact hgone (hyx ▸ hmem)
  · exact hyx (s.names y ((hrest y hy hyx).mpr hmem) x hhas (hy.trans h.1.symm))

end Store

section Run
variable {name vmID ref : Text} {s : Store} {holder : Snap}

/-- The end of the loop: the holder is gone, or nothing is. -/
structure Settled (name : Text) (holder : Snap) (s : Store) (s' : Store) (r : Option (Option String)) :
    Prop where
  clock : s.clock ≤ s'.clock
  gone : r = some none → s'.removed = s.removed ++ [holder] ∧ s'.Free name
  kept : r ≠ some none → s'.removed = s.removed
  same : r ≠ some none → s.SameName name s'

theorem Settled.after {s₁ s' : Store} {r : Option (Option String)} (h : s.Idles name s₁)
    (hr : Settled name holder s₁ s' r) : Settled name holder s s' r where
  clock := Nat.le_trans h.clock hr.clock
  gone hnone := ⟨by rw [(hr.gone hnone).1, h.removed], (hr.gone hnone).2⟩
  kept hsome := (hr.kept hsome).trans h.removed
  same hsome x hx := (h.same x hx).trans (hr.same hsome x hx)

theorem Settled.failed {s' : Store} (h : s.Idles name s') {r : Option (Option String)} (hr : r ≠ some none) :
    Settled name holder s s' r where
  clock := h.clock
  gone hnone := absurd hnone hr
  kept _ := h.removed
  same _ := h.same

theorem removeUntil_wp {deadline turns : ℕ} (href : Store.RefersTo name ref holder)
    (hhas : s.Has holder) :
    (removeUntil ref deadline turns).wp (answers name) (Settled name holder s) s := by
  induction turns generalizing s with
  | zero => exact Settled.failed (Store.Idles.refl s) nofun
  | succ turns ih =>
    refine Proc.wp_ask_bind.mpr fun f s₁ ⟨hclock, hrm⟩ => ?_
    cases f with
    | none => exact ⟨hclock, fun _ => href.removed hhas hrm, fun h => absurd rfl h, fun h => absurd rfl h⟩
    | some f =>
      have h₁ : s.Idles name s₁ := hrm
      dsimp only
      split
      · exact Settled.failed h₁ nofun
      · refine Proc.wp_ask_bind.mpr fun now s₂ ⟨h₂, _⟩ => ?_
        have h₁₂ := h₁.trans h₂
        split
        · exact Settled.failed h₁₂ nofun
        · refine Proc.wp_ask_bind.mpr fun err s₃ ⟨h₃, _⟩ => ?_
          have h₁₃ := h₁₂.trans h₃
          cases err with
          | some err => exact Settled.failed h₁₃ nofun
          | none =>
            have hhas₃ : s₃.Has holder := (h₁₃.same holder href.1).mp hhas
            exact Proc.wp_mono (fun s' r hr => hr.after h₁₃) (ih hhas₃)

theorem removeStaleSnapshot_wp (href : Store.RefersTo name ref holder) (hhas : s.Has holder)
    (turns : ℕ) : (removeStaleSnapshot turns ref).wp (answers name) (Settled name holder s) s := by
  refine Proc.wp_ask_bind.mpr fun start s₁ ⟨h₁, _⟩ => ?_
  have hhas₁ : s₁.Has holder := (h₁.same holder href.1).mp hhas
  exact Proc.wp_mono (fun s' r hr => hr.after h₁) (removeUntil_wp href hhas₁)

/-- What a save may leave behind. -/
structure Saved (name vmID : Text) (s : Store) (s' : Store) (r : Option (Option String)) : Prop where
  returns : r ≠ none
  removed : s'.removed = s.removed ∨
    ∃ holder, s.Has holder ∧ holder.name = name ∧ s'.removed = s.removed ++ [holder]
  saved : r = some none → ∃ x, s'.Has x ∧ x.name = name ∧ x.vm = vmID ∧ x.complete = true ∧
    s.clock ≤ x.savedAt ∧ ∀ y, s'.Has y → y.name = name → y = x

/- What is under the name after a successful command is the only one. -/
theorem saved_of_new {s₁ s' : Store} {x : Snap} (hclock : s.clock ≤ s₁.clock) (hx : s'.Has x)
    (hname : x.name = name) (hvm : x.vm = vmID) (hcomplete : x.complete = true)
    (hsaved : s₁.clock ≤ x.savedAt) :
    ∃ x, s'.Has x ∧ x.name = name ∧ x.vm = vmID ∧ x.complete = true ∧ s.clock ≤ x.savedAt ∧
      ∀ y, s'.Has y → y.name = name → y = x :=
  ⟨x, hx, hname, hvm, hcomplete, Nat.le_trans hclock hsaved,
    fun y hy hyname => s'.names y hy x hx (hyname.trans hname.symm)⟩

/-- The reference the save passes to the removal. -/
theorem refersTo_holder {out : Text} (hid : IsId holder.id) (hname : holder.name = name)
    (h : Rejects holder out) :
    Store.RefersTo name
      (if (snapshotNameHolderID out).isEmpty then name else snapshotNameHolderID out) holder := by
  refine ⟨hname, ?_⟩
  rcases snapshotNameHolderID_of_rejects hid h with heq | heq
  · left
    simp [heq, hid.ne_nil]
  · right
    simp [heq]

theorem rejected_of_taken {f : CmdFailure} {s₁ : Store}
    (htaken : containsAny f.out snapshotNameTaken = true)
    (hsave : (s.Free name ∧ containsAny f.out snapshotNameTaken = false) ∨
      (s.SameName name s₁ ∧ ∃ holder, s.Has holder ∧ holder.name = name ∧
        (containsAny f.out snapshotNameTaken = false ∨ Rejects holder f.out))) :
    s.SameName name s₁ ∧ ∃ holder, s.Has holder ∧ holder.name = name ∧ Rejects holder f.out := by
  rw [htaken] at hsave
  rcases hsave with ⟨_, hno⟩ | ⟨hsame, holder, hhas, hname, hno | hyes⟩
  · exact absurd hno (by decide)
  · exact absurd hno (by decide)
  · exact ⟨hsame, holder, hhas, hname, hyes⟩

/- The number of turns matters only for the return. -/
theorem snapshotSave_wp (turns : ℕ) : (snapshotSave turns name vmID).wp (answers name)
    (fun s' r => r ≠ none → Saved name vmID s s' r) s := by
  refine Proc.wp_ask_bind.mpr fun f s₁ ⟨hremoved, hclock, hsave⟩ => ?_
  cases f with
  | none =>
    obtain ⟨_, x, hx, hname, hvm, hcomplete, hsaved⟩ := hsave
    exact fun hr => ⟨hr, .inl hremoved, fun _ => saved_of_new (Nat.le_refl _) hx hname hvm hcomplete hsaved⟩
  | some f =>
    cases htaken : containsAny f.out snapshotNameTaken with
    | false =>
      simp only [htaken, Bool.not_false, if_true]
      exact fun hr => ⟨hr, .inl hremoved, nofun⟩
    | true =>
      simp only [htaken, Bool.not_true, Bool.false_eq_true, if_false]
      obtain ⟨hsame, holder, hhas, hname, hrejects⟩ := rejected_of_taken htaken hsave
      have href := refersTo_holder (s.proper holder hhas) hname hrejects
      refine Proc.wp_seq (removeStaleSnapshot_wp href ((hsame holder hname).mp hhas) turns)
        fun s₂ r hsettled => ?_
      cases r with
      | none => exact fun hr => absurd rfl hr
      | some r =>
        cases r with
        | some err =>
          exact fun hr => ⟨hr, .inl ((hsettled.kept nofun).trans hremoved), nofun⟩
        | none =>
          obtain ⟨hgone, _⟩ := hsettled.gone rfl
          refine Proc.wp_ask_bind.mpr fun f' s₃ ⟨hremoved₃, hclock₃, hsave₃⟩ => ?_
          have hlog : s₃.removed = s.removed ++ [holder] := by rw [hremoved₃, hgone, hremoved]
          cases f' with
          | some f' => exact fun hr => ⟨hr, .inr ⟨holder, hhas, hname, hlog⟩, nofun⟩
          | none =>
            obtain ⟨_, x, hx, hname', hvm, hcomplete, hsaved⟩ := hsave₃
            refine fun hr => ⟨hr, .inr ⟨holder, hhas, hname, hlog⟩, fun _ => ?_⟩
            exact saved_of_new (Nat.le_trans hclock hsettled.clock) hx hname' hvm hcomplete hsaved

end Run

/-! ### A holder that gives way -/

/-- A save fails only for a name that is taken. A removal fails only for the lease and only if it
begins before `release`; neither it nor a look at the clock takes longer than `slack`. No sleep is cut
short. -/
def willing (name : Text) (release slack : ℕ) : Proc.Answers Store SaveCall SaveAns := fun s q r s' =>
  answers name s q r s' ∧
    match q, r with
    | .save _ _, none => True
    | .save vmName _, some f => ¬ s.Free vmName ∧ containsAny f.out snapshotNameTaken = true
    | .rm _, none => True
    | .rm _, some f => containsAny (trimSpace f.out) snapshotLeaseHeld = true ∧ s.clock < release ∧
        s'.clock ≤ s.clock + slack
    | .now, _ => s'.clock ≤ s.clock + slack
    | .sleep _, err => err = none

section Willing
variable {name vmID ref : Text} {s : Store} {holder : Snap} {release slack : ℕ}

theorem removeUntil_willing_turn {deadline turns : ℕ} (href : Store.RefersTo name ref holder)
    (hhas : s.Has holder) (hrelease : release + 2 * slack ≤ deadline)
    (hmore : ∀ s₃, s₃.Has holder → s.clock < release → s.clock + staleSnapshotRmDelay ≤ s₃.clock →
      (removeUntil ref deadline turns).wp (willing name release slack)
        (fun s' r => r = some none ∧ s'.Free name) s₃) :
    (removeUntil ref deadline (turns + 1)).wp (willing name release slack)
      (fun s' r => r = some none ∧ s'.Free name) s := by
  refine Proc.wp_ask_bind.mpr fun f s₁ ⟨⟨hclock, hrm⟩, hwilling⟩ => ?_
  cases f with
  | none => exact ⟨rfl, (href.removed hhas hrm).2⟩
  | some f =>
    obtain ⟨hlease, hearly, hquick⟩ := hwilling
    have h₁ : s.Idles name s₁ := hrm
    simp only [hlease, Bool.not_true, Bool.false_eq_true, if_false]
    refine Proc.wp_ask_bind.mpr fun t s₂ ⟨⟨h₂, ht⟩, hnow⟩ => ?_
    -- the refusal was given before the lease ended, and two calls later it is still early
    have hlate : t < deadline := by
      have hnow' : s₂.clock ≤ s₁.clock + slack := hnow
      rw [ht]
      show s₂.clock < deadline
      omega
    simp only [hlate, decide_true, Bool.not_true, Bool.false_eq_true, if_false]
    refine Proc.wp_ask_bind.mpr fun err s₃ ⟨⟨h₃, hslept⟩, hnone⟩ => ?_
    subst hnone
    have h₁₃ := (h₁.trans h₂).trans h₃
    have hslept' := hslept rfl
    have hclock₂ := h₂.clock
    exact hmore s₃ ((h₁₃.same holder href.1).mp hhas) hearly (by omega)

theorem removeUntil_willing {deadline turns : ℕ} (href : Store.RefersTo name ref holder)
    (hhas : s.Has holder) (hrelease : release + 2 * slack ≤ deadline)
    (hturns : deadline ≤ s.clock + turns * staleSnapshotRmDelay) :
    (removeUntil ref deadline (turns + 1)).wp (willing name release slack)
      (fun s' r => r = some none ∧ s'.Free name) s := by
  induction turns generalizing s with
  | zero =>
    refine removeUntil_willing_turn href hhas hrelease fun s₃ _ hearly _ => ?_
    omega
  | succ turns ih =>
    refine removeUntil_willing_turn href hhas hrelease fun s₃ hhas₃ _ hslept => ih hhas₃ ?_
    rw [Nat.succ_mul] at hturns
    omega

theorem snapshotSave_willing (hrelease : release + 2 * slack ≤ s.clock + staleSnapshotRmBudget) :
    (snapshotSave 61 name vmID).wp (willing name release slack) (fun _ r => r = some none) s := by
  refine Proc.wp_ask_bind.mpr fun f s₁ ⟨⟨_, hclock, hsave⟩, hwilling⟩ => ?_
  cases f with
  | none => rfl
  | some f =>
    obtain ⟨hheld, htaken⟩ := hwilling
    simp only [htaken, Bool.not_true, Bool.false_eq_true, if_false]
    obtain ⟨hsame, holder, hhas, hname, hrejects⟩ := rejected_of_taken htaken hsave
    have href := refersTo_holder (s.proper holder hhas) hname hrejects
    have hremove : (removeStaleSnapshot 61 (if (snapshotNameHolderID f.out).isEmpty then name
        else snapshotNameHolderID f.out)).wp (willing name release slack)
          (fun s' r => r = some none ∧ s'.Free name) s₁ := by
      refine Proc.wp_ask_bind.mpr fun start s₂ ⟨⟨h₂, hstart⟩, _⟩ => ?_
      have hhas₂ : s₂.Has holder := (h₂.same holder hname).mp ((hsame holder hname).mp hhas)
      have hclock₂ := h₂.clock
      refine removeUntil_willing href hhas₂ ?_ ?_
      · rw [hstart]
        omega
      · rw [hstart]
        exact Nat.le_refl _
    refine Proc.wp_seq hremove fun s₂ r ⟨hr, hfree⟩ => ?_
    subst hr
    refine Proc.wp_ask_bind.mpr fun f' s₃ ⟨_, hwilling₃⟩ => ?_
    cases f' with
    | none => rfl
    | some f' => exact absurd hfree hwilling₃.1

end Willing

theorem timed_of_answers {name : Text} (s : Store) (q : SaveCall) (r : SaveAns q) (s' : Store)
    (h : answers name s q r s') : timed s.clock q r s'.clock := by
  cases q with
  | save vmName vmID => exact h.2.1
  | rm ref => exact h.1
  | now => exact ⟨h.1.clock, h.2⟩
  | sleep ms => exact ⟨h.1.clock, h.2⟩

/-- A save returns within 61 removals, whatever the commands answer.  It never removes a snapshot but
the one that held its name, and when it succeeds the name stands for a complete snapshot of this VM
that was saved by it. -/
theorem save_replaces_own_name (name vmID : Text) :
    (∀ t t' r, Proc.Exec timed t (snapshotSave 61 name vmID) t' r → r ≠ none) ∧
    ∀ s s' r, Proc.Exec (answers name) s (snapshotSave 61 name vmID) s' r → Saved name vmID s s' r := by
  refine ⟨fun t t' r h => h.post snapshotSave_returns, fun s s' r h => ?_⟩
  exact h.post (snapshotSave_wp 61) ((h.map Store.clock timed_of_answers).post snapshotSave_returns)

/- A save that was killed left the name behind. -/
def staleSnap : Snap := ⟨['A'], ['n'], ['v'], false, 0⟩

def newSnap : Snap := ⟨['B'], ['n'], ['v'], true, 541⟩

/-- A store with at most one snapshot. -/
def storeOf (snap : Option Snap) (removed : List Snap) (clock : ℕ) (h : ∀ x, snap = some x →
    IsId x.id ∧ x.id ≠ x.name) : Store where
  snaps := snap.toList
  removed := removed
  clock := clock
  ids x hx y hy _ := by
    rw [Option.mem_toList] at hx hy
    exact Option.some.inj (hx.symm.trans hy)
  names x hx y hy _ := by
    rw [Option.mem_toList] at hx hy
    exact Option.some.inj (hx.symm.trans hy)
  apart x hx y hy := by
    rw [Option.mem_toList] at hx hy
    rw [← Option.some.inj (hx.symm.trans hy)]
    exact (h x hx).2
  proper x hx := by
    rw [Option.mem_toList] at hx
    exact (h x hx).1

theorem isId_singleton {c : Char} (hc : isSpace c = false) (hp : c ≠ ')') : IsId [c] where
  ne_nil := List.cons_ne_nil _ _
  solid := List.forall_mem_singleton.mpr hc
  plain := by simpa using hp

theorem isId_A : IsId ['A'] := isId_singleton (by decide) (by decide)

theorem isId_B : IsId ['B'] := isId_singleton (by decide) (by decide)

def staleStore (clock : ℕ) : Store := storeOf (some staleSnap) [] clock fun x hx => by
  rw [← Option.some.inj hx]
  exact ⟨isId_A, by decide⟩

def clearedStore : Store := storeOf none [staleSnap] 540 nofun

def savedStore : Store := storeOf (some newSnap) [staleSnap] 541 fun x hx => by
  rw [← Option.some.inj hx]
  exact ⟨isId_B, by decide⟩

theorem staleSnap_rejects : Rejects staleSnap (inUseBy ++ ['A']) := by
  refine ⟨by decide +kernel, .inl ⟨[], [], rfl, by decide +kernel, rfl⟩⟩

theorem staleStore_idles {clock clock' : ℕ} (h : clock ≤ clock') :
    (staleStore clock).Idles ['n'] (staleStore clock') :=
  ⟨fun _ _ => Iff.rfl, rfl, h⟩

/-- The child of the killed save holds its lease for half a second, so that the first removal is
refused. -/
theorem stale_exec : Proc.Exec (willing ['n'] 500 50) (staleStore 0) (snapshotSave 61 ['n'] ['v'])
    savedStore (some none) := by
  have hhas : ∀ clock, (staleStore clock).Has staleSnap := fun _ => List.mem_singleton.mpr rfl
  have hempty : ∀ x, ¬ clearedStore.Has x := fun x hx => List.not_mem_nil hx
  have hsave : willing ['n'] 500 50 (staleStore 0) (.save ['n'] ['v'])
      (some ⟨"exit status 1", inUseBy ++ ['A']⟩) (staleStore 0) := by
    refine ⟨⟨rfl, Nat.le_refl _, .inr ⟨fun _ _ => Iff.rfl, staleSnap, hhas 0, rfl, ?_⟩⟩, ?_, ?_⟩
    · exact .inr staleSnap_rejects
    · exact fun hfree => hfree staleSnap rfl (hhas 0)
    · exact staleSnap_rejects.1
  have hnow : ∀ t, willing ['n'] 500 50 (staleStore t) .now t (staleStore t) := fun t =>
    ⟨⟨staleStore_idles (Nat.le_refl t), rfl⟩, Nat.le_add_right t 50⟩
  have hrefused : willing ['n'] 500 50 (staleStore 0) (.rm ['A'])
      (some ⟨"exit status 1", "is in use by an active".toList⟩) (staleStore 40) :=
    ⟨⟨by decide, staleStore_idles (by decide)⟩, by decide +kernel, by decide, by decide⟩
  have hsleep : willing ['n'] 500 50 (staleStore 40) (.sleep 500) none (staleStore 540) :=
    ⟨⟨staleStore_idles (by decide), fun _ => by decide⟩, rfl⟩
  have hrm : willing ['n'] 500 50 (staleStore 540) (.rm ['A']) none clearedStore := by
    refine ⟨⟨Nat.le_refl _, staleSnap, ⟨hhas 540, .inl rfl⟩, rfl, hempty staleSnap, ?_⟩, trivial⟩
    intro y hy hne
    exact ⟨fun hmem => absurd (List.mem_singleton.mp hmem) hne, fun hmem => absurd hmem (hempty y)⟩
  have hagain : willing ['n'] 500 50 clearedStore (.save ['n'] ['v']) none savedStore := by
    refine ⟨⟨rfl, by decide, fun x _ => hempty x, newSnap, ?_⟩, trivial⟩
    exact ⟨List.mem_singleton.mpr rfl, rfl, rfl, rfl, by decide⟩
  exact .call hsave (.call (hnow 0) (.call hrefused (.call (hnow 40) (.call hsleep
    (.call hrm (.call hagain (.ret _ _)))))))

/- The holder is the only one removed, and the name stands for the new snapshot. -/
theorem stale_save_replaced : Saved ['n'] ['v'] (staleStore 0) savedStore (some none) :=
  (save_replaces_own_name ['n'] ['v']).2 _ _ _ (stale_exec.mono fun _ _ _ _ h => h.1)

/-- A save succeeds where a taken name is the only reason for it to fail, the holder can be removed
once its lease has ended, its last refusal is answered within the budget, and nothing is
cancelled. -/
theorem save_outlasts_holder {name vmID : Text} {s s' : Store} {r : Option (Option String)}
    {release slack : ℕ} (hrelease : release + 2 * slack ≤ s.clock + staleSnapshotRmBudget)
    (h : Proc.Exec (willing name release slack) s (snapshotSave 61 name vmID) s' r) : r = some none :=
  h.post (snapshotSave_willing hrelease)

theorem stale_save_succeeds : ∃ s' r,
    Proc.Exec (willing ['n'] 500 50) (staleStore 0) (snapshotSave 61 ['n'] ['v']) s' r ∧
      500 < s'.clock ∧ r = some none :=
  ⟨savedStore, some none, stale_exec, by decide, save_outlasts_holder (by decide) stale_exec⟩

end VkCocoon.Save
