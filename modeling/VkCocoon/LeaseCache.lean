import VkCocoon.Lib.GoMap
import VkCocoon.Lib.Pool
import VkCocoon.Types

/-!
# The lease cache hides no change

`LeaseParser.LookupByMAC` in any number of threads: `refresh` stats the lease file,
compares what it saw with what is recorded, reads and parses the file and stores the
table together with what it saw. Stat, read and store are three steps, so the recorded
pair and the table may be of two versions of the file; the table is never the older one.
The file is the list of the versions it has had, the present one last.
-/

namespace VkCocoon.Leases
open Lib

structure Lease where
  mac : String
  ip : String
  expiresAt : ℤ
deriving DecidableEq, Repr

/-- A row of the lease file. -/
structure CocoonNetLease where
  mac : String
  ip : String
  expiry : String
deriving DecidableEq, Repr

/-- What `os.Stat` is asked for. -/
structure FileInfo where
  modTime : ℤ
  size : ℕ
deriving DecidableEq, Repr

structure Version where
  modTime : ℤ
  data : List UInt8
deriving DecidableEq, Repr

def Version.info (v : Version) : FileInfo := ⟨v.modTime, v.data.length⟩

/-- `json.Unmarshal` into the rows, and `time.Parse` with `time.RFC3339`. -/
structure Decoders where
  unmarshal : List UInt8 → Except String (List CocoonNetLease)
  parseTime : String → Option ℤ

inductive LeaseError where
  | noLease
  | text (message : String)
deriving DecidableEq, Repr

structure LeaseParser where
  path : String
  mtime : ℤ
  size : ℕ
  /-- `none` is the nil map of a new parser. -/
  byMAC : Option (GoMap String Lease)

def LeaseParser.new (path : String) : LeaseParser := ⟨path, 0, 0, none⟩

def LeaseParser.fresh (p : LeaseParser) (info : FileInfo) : Bool :=
  p.byMAC.isSome && info.modTime == p.mtime && info.size == p.size

def LeaseParser.store (p : LeaseParser) (info : FileInfo) (byMAC : GoMap String Lease) : LeaseParser :=
  { p with byMAC := some byMAC, mtime := info.modTime, size := info.size }

/-- The lease of a MAC address, if it has not run out at `now`. -/
def LeaseParser.find (p : LeaseParser) (mac : String) (now : ℤ) : Except LeaseError Lease :=
  match p.byMAC.bind (·.get (toLower mac)) with
  | some lease => if now < lease.expiresAt then .ok lease else .error .noLease
  | none => .error .noLease

/-- The rows of the file; one whose expiry cannot be read is left out. -/
def Decoders.leases (d : Decoders) (rows : List CocoonNetLease) : List Lease :=
  rows.filterMap fun r => (d.parseTime r.expiry).map fun t => ⟨r.mac, r.ip, t⟩

def index (leases : List Lease) : GoMap String Lease :=
  leases.foldl (fun m lease => m.set (toLower lease.mac) lease) GoMap.empty

/-- What `refresh` makes of the bytes of the file. -/
def Decoders.table (d : Decoders) (data : List UInt8) : Except String (GoMap String Lease) :=
  (d.unmarshal data).map fun rows => index (d.leases rows)

/-! ### The calls -/

inductive LookupPC where
  | stat
  | check (info : FileInfo)
  | parse (info : FileInfo)
  | store (info : FileInfo) (byMAC : GoMap String Lease)
  | find
  | done (result : Except LeaseError Lease)

/-- A call of `LookupByMAC`. -/
structure Lookup where
  mac : String
  pc : LookupPC

/-- What a step is answered: a system call succeeds or not, and the clock is read. -/
inductive Reply where
  | ok
  | err (message : String)
  | now (time : ℤ)
deriving DecidableEq, Repr

structure Host where
  parser : LeaseParser
  versions : List Version

def Lookup.fails (l : Lookup) (verb path err : String) : Lookup :=
  { l with pc := .done (.error (.text (verb ++ " " ++ path ++ ": " ++ err))) }

def Lookup.step (d : Decoders) (h : Host) (l : Lookup) : Reply → Option (Host × Lookup)
  | .ok =>
    match l.pc with
    | .stat => h.versions.getLast?.map fun v => (h, { l with pc := .check v.info })
    | .check info =>
      if h.parser.fresh info then some (h, { l with pc := .find })
      else some (h, { l with pc := .parse info })
    | .parse info =>
      h.versions.getLast?.map fun v =>
        match d.table v.data with
        | .error err => (h, l.fails "decode leases" h.parser.path err)
        | .ok byMAC => (h, { l with pc := .store info byMAC })
    | .store info byMAC => some ({ h with parser := h.parser.store info byMAC }, { l with pc := .find })
    | .find | .done _ => none
  | .err err =>
    match l.pc with
    | .stat => some (h, l.fails "stat lease file" h.parser.path err)
    | .parse _ => some (h, l.fails "read lease file" h.parser.path err)
    | _ => none
  | .now time =>
    match l.pc with
    | .find => some (h, { l with pc := .done (h.parser.find l.mac time) })
    | _ => none

def Lookup.isNew (l : Lookup) : Bool :=
  match l.pc with
  | .stat => true
  | _ => false

/-- Calls of `LookupByMAC` among rewrites of the file, each with a pair not used before. -/
def lookups (d : Decoders) : Program Host Lookup Reply Version :=
  Program.ofStep (fun _ l => l.isNew) (fun h _ l a => l.step d h a) fun h v =>
    if h.versions.all (fun u => u.info != v.info) then some { h with versions := h.versions ++ [v] }
    else none

/-- A new parser beside a file with any past. -/
def begin (path : String) (versions : List Version) : Config Host Lookup :=
  ⟨⟨.new path, versions⟩, []⟩

/-! ### The recorded pair is not newer than the table -/

/-- `info` was the pair of some version, and `byMAC` is the table of that one or a newer one. -/
def Covers (d : Decoders) (versions : List Version) (info : FileInfo) (byMAC : GoMap String Lease) :
    Prop :=
  ∃ (i j : ℕ) (v w : Version), i ≤ j ∧ versions[i]? = some v ∧ v.info = info ∧ versions[j]? = some w ∧
    d.table w.data = .ok byMAC

variable {d : Decoders} {h h' : Host} {l l' : Lookup} {versions more : List Version}
  {info : FileInfo} {byMAC : GoMap String Lease}

theorem getElem?_append_of_some {v : Version} {i : ℕ} (hv : versions[i]? = some v) :
    (versions ++ more)[i]? = some v := by
  have hi : i < versions.length := (List.getElem?_eq_some_iff.mp hv).1
  rw [List.getElem?_append_left hi]
  exact hv

theorem Covers.append (hc : Covers d versions info byMAC) : Covers d (versions ++ more) info byMAC := by
  obtain ⟨i, j, v, w, hij, hv, hinfo, hw, htable⟩ := hc
  exact ⟨i, j, v, w, hij, getElem?_append_of_some hv, hinfo, getElem?_append_of_some hw, htable⟩

/-- What is recorded goes together, and no pair was used twice. -/
structure Host.Sound (d : Decoders) (h : Host) : Prop where
  distinct : (h.versions.map Version.info).Nodup
  cached : ∀ byMAC, h.parser.byMAC = some byMAC →
    Covers d h.versions ⟨h.parser.mtime, h.parser.size⟩ byMAC

/-- What a call has seen so far. -/
def LookupPC.Sound (d : Decoders) (versions : List Version) : LookupPC → Prop
  | .check info | .parse info => ∃ (i : ℕ) (v : Version), versions[i]? = some v ∧ v.info = info
  | .store info byMAC => Covers d versions info byMAC
  | .stat | .find | .done _ => True

theorem LookupPC.Sound.append {pc : LookupPC} (hpc : pc.Sound d versions) :
    pc.Sound d (versions ++ more) := by
  cases pc with
  | check info | parse info =>
    obtain ⟨i, v, hv, hinfo⟩ := hpc
    exact ⟨i, v, getElem?_append_of_some hv, hinfo⟩
  | store info byMAC => exact Covers.append hpc
  | stat | find | done result => trivial

theorem getLast?_getElem? {v : Version} (hv : versions.getLast? = some v) :
    versions[versions.length - 1]? = some v := by
  rw [← List.getLast?_eq_getElem?]
  exact hv

/- A read comes after the stat of its call, so it sees that version or a newer one. -/
theorem covers_of_read {v : Version} {i : ℕ} {u : Version} (hu : versions[i]? = some u)
    (hinfo : u.info = info) (hv : versions.getLast? = some v) (htable : d.table v.data = .ok byMAC) :
    Covers d versions info byMAC := by
  have hi : i < versions.length := (List.getElem?_eq_some_iff.mp hu).1
  exact ⟨i, versions.length - 1, u, v, by omega, hu, hinfo, getLast?_getElem? hv, htable⟩

theorem step_sound {a : Reply} (hh : h.Sound d) (hl : l.pc.Sound d h.versions)
    (hs : l.step d h a = some (h', l')) :
    h'.versions = h.versions ∧ h'.Sound d ∧ l'.pc.Sound d h.versions := by
  obtain ⟨mac, pc⟩ := l
  cases a with
  | ok =>
    cases pc with
    | stat =>
      obtain ⟨v, hv, heq⟩ := Option.map_eq_some_iff.mp hs
      cases heq
      exact ⟨rfl, hh, _, v, getLast?_getElem? hv, rfl⟩
    | check info =>
      simp only [Lookup.step] at hs
      split at hs
      · cases hs
        exact ⟨rfl, hh, trivial⟩
      · cases hs
        exact ⟨rfl, hh, hl⟩
    | parse info =>
      obtain ⟨v, hv, heq⟩ := Option.map_eq_some_iff.mp hs
      obtain ⟨i, u, hu, hinfo⟩ := hl
      cases htable : d.table v.data with
      | error err =>
        rw [htable] at heq
        cases heq
        exact ⟨rfl, hh, trivial⟩
      | ok byMAC =>
        rw [htable] at heq
        cases heq
        exact ⟨rfl, hh, covers_of_read hu hinfo hv htable⟩
    | store info byMAC =>
      cases hs
      refine ⟨rfl, ⟨hh.distinct, ?_⟩, trivial⟩
      intro table htable
      cases htable
      exact hl
    | find => cases hs
    | done result => cases hs
  | err err =>
    cases pc <;> cases hs <;> exact ⟨rfl, hh, trivial⟩
  | now time =>
    cases pc <;> cases hs
    exact ⟨rfl, hh, trivial⟩

theorem nodup_snoc {v : Version} (hn : (versions.map Version.info).Nodup)
    (hv : versions.all (fun u => u.info != v.info) = true) :
    ((versions ++ [v]).map Version.info).Nodup := by
  rw [List.map_append, List.map_singleton, List.nodup_append]
  refine ⟨hn, List.nodup_singleton _, fun x hx y hy => ?_⟩
  obtain ⟨u, hu, rfl⟩ := List.mem_map.mp hx
  rw [List.mem_singleton.mp hy]
  simpa using List.all_eq_true.mp hv u hu

theorem next_sound (c : Config Host Lookup) (e : PoolEvent Lookup Reply Version) (c' : Config Host Lookup)
    (hc : Program.Stable (Host.Sound d) (fun h _ l => l.pc.Sound d h.versions) c) (_ : True)
    (hn : (lookups d).next c e = some c') :
    Program.Stable (Host.Sound d) (fun h _ l => l.pc.Sound d h.versions) c' := by
  apply (lookups d).next_stable (G := fun _ _ => True) ?_ ?_ ?_ c e c' hc trivial hn
  · intro c l _ _ hnew
    have hnew : l.isNew = true := hnew
    unfold Lookup.isNew at hnew
    split at hnew
    next hpc =>
      rw [hpc]
      trivial
    next => cases hnew
  · intro c i l a h' l' new hc _ hl hs
    obtain ⟨⟨h₁, l₁⟩, hstep, heq⟩ := Option.map_eq_some_iff.mp hs
    cases heq
    obtain ⟨hversions, hsound, hpc⟩ := step_sound hc.1 (hc.2 i l hl) hstep
    refine ⟨hsound, ?_, fun j u _ hu => ?_, fun j u _ hu => ?_⟩
    · rw [hversions]
      exact hpc
    · rw [hversions]
      exact hc.2 j u hu
    · cases hu
  · intro c v h' hc _ hs
    simp only [lookups, Program.ofStep] at hs
    split at hs
    next hnew =>
      cases hs
      refine ⟨⟨nodup_snoc hc.1.distinct hnew, fun byMAC hb => (hc.1.cached byMAC hb).append⟩, ?_⟩
      intro j u hu
      exact (hc.2 j u hu).append
    next => cases hs

theorem fresh_iff {p : LeaseParser} : p.fresh info = true ↔
    (∃ byMAC, p.byMAC = some byMAC) ∧ info = ⟨p.mtime, p.size⟩ := by
  obtain ⟨modTime, size⟩ := info
  simp only [LeaseParser.fresh, Bool.and_eq_true, beq_iff_eq, Option.isSome_iff_exists, FileInfo.mk.injEq,
    and_assoc]

/-- In every run of calls and rewrites, when a call goes on without parsing, its pair is that of
exactly one version, and the cached table is the parse of that version or of a newer one. -/
theorem skipped_parse_is_current (d : Decoders) (path : String) (past : List Version)
    (hpast : (past.map Version.info).Nodup) (es : List (PoolEvent Lookup Reply Version))
    (c c' : Config Host Lookup) (hexec : (lookups d).machine.exec (begin path past) es = some c)
    (i : ℕ) (a : Reply) (mac : String) (info : FileInfo)
    (hcheck : c.threads[i]? = some ⟨mac, .check info⟩) (hnext : (lookups d).next c (.run i a) = some c')
    (hskip : c'.threads[i]? = some ⟨mac, .find⟩) :
    ∃ byMAC, ∃ (j : ℕ) (v : Version), c.shared.parser.byMAC = some byMAC ∧
      c.shared.versions[j]? = some v ∧ v.info = info ∧
      (∀ (k : ℕ) (u : Version), c.shared.versions[k]? = some u → u.info = info → k = j) ∧
      ∃ (k : ℕ) (w : Version), j ≤ k ∧ c.shared.versions[k]? = some w ∧ d.table w.data = .ok byMAC := by
  have hstart : Program.Stable (Host.Sound d) (fun h _ l => l.pc.Sound d h.versions) (begin path past) := by
    refine ⟨⟨hpast, fun byMAC hb => (by cases hb)⟩, fun j u hu => ?_⟩
    cases hu
  have hc := (lookups d).exec_stable next_sound hstart ((lookups d).machine.guarded_true _ es) hexec
  -- the step that skips is the one that found the recorded pair equal
  have hfresh : c.shared.parser.fresh info = true := by
    obtain ⟨l, h', l', hl, hs, rfl⟩ := Program.ofStep_run hnext
    rw [hcheck] at hl
    cases hl
    have hi : i < c.threads.length := (List.getElem?_eq_some_iff.mp hcheck).1
    rw [List.getElem?_set_self hi] at hskip
    cases hskip
    cases a with
    | ok =>
      simp only [Lookup.step] at hs
      split at hs
      next hf => exact hf
      next => cases hs
    | err err => cases hs
    | now time => cases hs
  obtain ⟨⟨byMAC, hb⟩, rfl⟩ := fresh_iff.mp hfresh
  obtain ⟨j, k, v, w, hjk, hv, hinfo, hw, htable⟩ := hc.1.cached byMAC hb
  refine ⟨byMAC, j, v, hb, hv, hinfo, ?_, k, w, hjk, hw, htable⟩
  intro m u hu huinfo
  have hmap : ∀ (n : ℕ) x, c.shared.versions[n]? = some x →
      (c.shared.versions.map Version.info)[n]? = some x.info := by
    intro n x hx
    rw [List.getElem?_map, hx]
    rfl
  have hlen : m < (c.shared.versions.map Version.info).length :=
    (List.getElem?_eq_some_iff.mp (hmap m u hu)).1
  apply (List.getElem?_inj hlen hc.1.distinct).mp
  rw [hmap m u hu, hmap j v hv, huinfo, hinfo]

/- One row, whose address tells the two versions apart. -/
def oneRow : Decoders :=
  ⟨fun data => .ok [⟨"AA", if data = [1] then "10.0.0.1" else "10.0.0.2", ""⟩], fun _ => some 10⟩

/- Two calls stat the first version; one of them reads the second and records it under the first. -/
def readAfterRewrite : List (PoolEvent Lookup Reply Version) :=
  [.start ⟨"aa", .stat⟩, .start ⟨"aa", .stat⟩, .run 0 .ok, .run 1 .ok, .run 0 .ok, .env ⟨2, [2]⟩,
   .run 0 .ok, .run 0 .ok]

theorem skipped_parse_after_rewrite :
    ∃ c byMAC, (lookups oneRow).machine.exec (begin "leases.json" [⟨1, [1]⟩]) readAfterRewrite = some c ∧
      c.shared.parser.byMAC = some byMAC ∧ ∃ (k : ℕ) (w : Version), c.shared.versions[k]? = some w ∧
        oneRow.table w.data = .ok byMAC := by
  let c : Config Host Lookup :=
    ⟨⟨⟨"leases.json", 1, 1, some (index [⟨"AA", "10.0.0.2", 10⟩])⟩, [⟨1, [1]⟩, ⟨2, [2]⟩]⟩,
      [⟨"aa", .find⟩, ⟨"aa", .check ⟨1, 1⟩⟩]⟩
  have hexec : (lookups oneRow).machine.exec (begin "leases.json" [⟨1, [1]⟩]) readAfterRewrite = some c :=
    rfl
  have hnext : (lookups oneRow).next c (.run 1 .ok) =
      some ⟨c.shared, [⟨"aa", .find⟩, ⟨"aa", .find⟩]⟩ := rfl
  obtain ⟨byMAC, _, _, hb, -, -, -, k, w, -, hw, htable⟩ := skipped_parse_is_current oneRow "leases.json"
    [⟨1, [1]⟩] (by decide) readAfterRewrite c _ hexec 1 .ok "aa" ⟨1, 1⟩ rfl hnext rfl
  exact ⟨c, byMAC, hexec, hb, k, w, hw, htable⟩

end VkCocoon.Leases
