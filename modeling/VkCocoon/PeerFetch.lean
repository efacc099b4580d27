import VkCocoon.Lib.Crc
import VkCocoon.PeerScan

/-!
# Slices over a link

The serving node streams a slice and sets a checksum trailer once every byte of it went
out (`handleSlice`); a task of the waking node writes what arrives as it arrives and
looks at length, trailer and checksum only when the stream has ended (`fetchSlice`). So
damaged bytes do get into a staged file. What is proved is that then some task fails: a
fetch whose tasks all succeed has staged the files of the peer, byte for byte.
-/

namespace VkCocoon.Peer
open Lib

def castagnoli : BitVec 32 := 0x82f63b78

/-- `strconv.FormatUint(uint64(h.Sum32()), 16)` -/
def hexSum (sum : BitVec 32) : String := String.ofList (Nat.toDigits 16 sum.toNat)

/-- A response body and its trailer; an unset trailer reads as the empty string. -/
structure SliceStream where
  body : List UInt8
  trailer : String
deriving DecidableEq, Repr

/-- `io.NewSectionReader(f, offset, length)` read to its end. -/
def sectionBytes (content : List UInt8) (offset length : Int64) : List UInt8 :=
  (content.drop offset.toInt.toNat).take length.toInt.toNat

/-- `handleSlice` once the file is open; with `fault` a read or write fails after that many bytes. -/
def sendSlice (content : List UInt8) (offset length : Int64) (fault : Option ℕ) : SliceStream :=
  let data := sectionBytes content offset length
  match fault with
  | some k => ⟨data.take k, ""⟩
  | none =>
    if Int64.ofNat data.length ≠ length then ⟨data, ""⟩
    else ⟨data, hexSum (Crc.sum castagnoli data)⟩

/-- The checks of `fetchSlice` on `n` bytes that were read and written. -/
def checkSlice (fmt : Verbs) (name : GoString) (sl : PeerSlice) (n : ℕ) (want : String)
    (sum : BitVec 32) : Except String Unit :=
  let label := "peer slice " ++ fmt.s name ++ "@" ++ toString sl.offset.toInt ++ ": "
  if Int64.ofNat n ≠ sl.length then
    .error (label ++ "got " ++ toString n ++ " bytes, want " ++ toString sl.length.toInt)
  else if want = "" then .error (label ++ "server sent no checksum trailer")
  else if hexSum sum ≠ want then .error (label ++ "checksum mismatch")
  else .ok ()

/-- A task of `fetchFiles` on the file with this number: `reg` is the state of `h` and `want` the
trailer of the response. -/
structure Fetch where
  file : ℕ
  name : GoString
  task : Task
  reg : BitVec 32
  want : String

inductive FetchEvent where
  | answer (s : SliceStream)
  | read (n : ℕ)
  | writeAt
  | eof
  | check
  /-- A request, a read or a write fails, or the group's context is cancelled. -/
  | fail
deriving DecidableEq, Repr

/-- The bytes a read of `n` takes from the stream. -/
def TaskPC.arriving (n : ℕ) : TaskPC → List UInt8
  | .copying _ _ _ rest => rest.take n
  | .idle | .checking _ _ | .failed => []

/-- One step of a task on its file. -/
def Fetch.on (fmt : Verbs) (file : List UInt8) (f : Fetch) : FetchEvent → Option (List UInt8 × Fetch)
  | .answer s => (f.task.step file (.answer s.body)).map fun r =>
      (r.1, { f with task := r.2, reg := BitVec.allOnes 32, want := s.trailer })
  | .read n => (f.task.step file (.read n)).map fun r =>
      (r.1, { f with task := r.2, reg := Crc.update castagnoli f.reg (f.task.pc.arriving n) })
  | .writeAt => (f.task.step file .writeAt).map fun r => (r.1, { f with task := r.2 })
  | .eof => (f.task.step file .eof).map fun r => (r.1, { f with task := r.2 })
  | .check =>
    match f.task.pc, f.task.writes with
    | .checking sl got, [] =>
      match checkSlice fmt f.name sl got f.want (~~~f.reg) with
      | .ok () => some (file, { f with task := { f.task with pc := .idle } })
      | .error _ => some (file, { f with task := { f.task with pc := .failed } })
    | _, _ => none
  | .fail => (f.task.step file .fail).map fun r => (r.1, { f with task := r.2 })

def Fetch.step (fmt : Verbs) (files : List (List UInt8)) (f : Fetch) (e : FetchEvent) :
    Option (List (List UInt8) × Fetch) :=
  (files[f.file]?).bind fun file => (f.on fmt file e).map fun r => (files.set f.file r.1, r.2)

/-- The goroutines of `fetchFiles` over the files they share. -/
def fetching (fmt : Verbs) : Program (List (List UInt8)) Fetch FetchEvent Empty :=
  Program.ofStep (fun _ _ => false) (fun files _ f e => f.step fmt files e) fun _ o => nomatch o

/-! ### Checksums and trailers -/

theorem digitChar_injective {a b : ℕ} (ha : a < 16) (hb : b < 16) (h : a.digitChar = b.digitChar) :
    a = b := by
  have hall : ∀ a < 16, ∀ b < 16, a.digitChar = b.digitChar → a = b := by decide
  exact hall a ha b hb h

theorem toDigits_injective {m n : ℕ} (h : Nat.toDigits 16 m = Nat.toDigits 16 n) : m = n := by
  induction m using Nat.strongRecOn generalizing n with
  | _ m ih =>
    rw [Nat.toDigits_eq_if (by decide), Nat.toDigits_eq_if (n := n) (by decide)] at h
    by_cases hm : m < 16
    · by_cases hn : n < 16
      · rw [if_pos hm, if_pos hn] at h
        exact digitChar_injective hm hn (List.singleton_inj.mp h)
      · rw [if_pos hm, if_neg hn] at h
        have hlen := congrArg List.length h
        have hpos : 0 < (Nat.toDigits 16 (n / 16)).length := List.length_pos_iff.mpr Nat.toDigits_ne_nil
        simp only [List.length_singleton, List.length_append] at hlen
        omega
    · by_cases hn : n < 16
      · rw [if_neg hm, if_pos hn] at h
        have hlen := congrArg List.length h
        have hpos : 0 < (Nat.toDigits 16 (m / 16)).length := List.length_pos_iff.mpr Nat.toDigits_ne_nil
        simp only [List.length_singleton, List.length_append] at hlen
        omega
      · rw [if_neg hm, if_neg hn] at h
        obtain ⟨hinit, hlast⟩ := List.append_inj' h rfl
        have hquot := ih (m / 16) (by omega) hinit
        have hrem := digitChar_injective (Nat.mod_lt m (by decide)) (Nat.mod_lt n (by decide))
          (List.singleton_inj.mp hlast)
        omega

theorem hexSum_injective {s s' : BitVec 32} (h : hexSum s = hexSum s') : s = s' :=
  BitVec.eq_of_toNat_eq (toDigits_injective (String.ofList_injective h))

/- Also the sum zero has a text. -/
theorem hexSum_ne_empty (s : BitVec 32) : hexSum s ≠ "" := by
  intro h
  exact Nat.toDigits_ne_nil (String.ofList_injective h)

theorem castagnoli_msb : castagnoli.msb = true := by decide

/-- The slice is accepted: its length is right and its trailer is the sum of what was read. -/
def Accepted (sl : PeerSlice) (n : ℕ) (want : String) (sum : BitVec 32) : Prop :=
  Int64.ofNat n = sl.length ∧ want ≠ "" ∧ hexSum sum = want

theorem checkSlice_ok {fmt : Verbs} {name : GoString} {sl : PeerSlice} {n : ℕ} {want : String}
    {sum : BitVec 32} : checkSlice fmt name sl n want sum = .ok () ↔ Accepted sl n want sum := by
  unfold checkSlice Accepted
  by_cases hlen : Int64.ofNat n = sl.length
  · by_cases hwant : want = ""
    · simp [hlen, hwant]
    · by_cases hsum : hexSum sum = want <;> simp [hlen, hwant, hsum]
  · simp [hlen]

/-! ### Links -/

/-- What a link may make of a stream: it may lose the trailer, and it may change the length of the
body or up to four bytes in a row. -/
structure Carries (sent got : SliceStream) : Prop where
  trailer : got.trailer = "" ∨ got.trailer = sent.trailer
  body : got.body.length ≠ sent.body.length ∨ ∃ pre x y post, x.length = y.length ∧ x.length ≤ 4 ∧
    sent.body = pre ++ x ++ post ∧ got.body = pre ++ y ++ post
  fits : (got.body.length : ℤ) < 2 ^ 63

variable {fmt : Verbs} {content file file' : List UInt8} {sl : PeerSlice} {f f' : Fetch}
  {sent got : SliceStream} {fault : Option ℕ}

theorem sectionBytes_eq (h : sl.Inside content) :
    sectionBytes content sl.offset sl.length = sl.bytes content := by
  obtain ⟨h1, h2, h3⟩ := h
  have hspan : sl.span.start = sl.offset.toInt ∧ sl.span.stop = sl.offset.toInt + sl.length.toInt :=
    ⟨rfl, rfl⟩
  rw [sectionBytes, PeerSlice.bytes, List.extract_eq_take_drop, hspan.1, hspan.2]
  congr 1
  omega

/- A stream with a trailer has every byte of the slice. -/
theorem sendSlice_trailer (hsl : sl.Inside content)
    (h : (sendSlice content sl.offset sl.length fault).trailer ≠ "") :
    sendSlice content sl.offset sl.length fault =
      ⟨sl.bytes content, hexSum (Crc.sum castagnoli (sl.bytes content))⟩ := by
  unfold sendSlice at h ⊢
  rw [sectionBytes_eq hsl] at h ⊢
  cases fault with
  | some k => exact absurd rfl h
  | none =>
    simp only at h ⊢
    split at h
    · exact absurd rfl h
    next hlen => rw [if_neg hlen]

/- The check of the waking node sees what the link did. -/
theorem accepted_body (hsl : sl.Inside content)
    (hcarry : Carries (sendSlice content sl.offset sl.length fault) got)
    (hacc : Accepted sl got.body.length got.trailer (Crc.sum castagnoli got.body)) :
    got.body = sl.bytes content := by
  obtain ⟨hlen, hwant, hsum⟩ := hacc
  have htrailer : got.trailer = (sendSlice content sl.offset sl.length fault).trailer :=
    hcarry.trailer.resolve_left hwant
  rw [htrailer] at hwant hsum
  have hsent := sendSlice_trailer hsl hwant
  rw [hsent] at hsum
  have hcrc := hexSum_injective hsum
  have hbody := hcarry.body
  rw [hsent] at hbody
  rcases hbody with hne | ⟨pre, x, y, post, hxy, hx, hb, hg⟩
  · refine absurd ?_ hne
    have hbytes := length_bytes hsl
    have hfit := toInt_ofNat_of_fits hcarry.fits
    rw [hlen] at hfit
    simp only
    omega
  · simp only at hb
    rw [hg, hb] at hcrc
    rw [hg, hb, Crc.eq_of_sum_eq castagnoli_msb hxy.symm (by omega) hcrc]

/-! ### One task -/

/-- What was read so far and what is still to come will pass the check. -/
def Fetch.Passing (f : Fetch) : Prop :=
  match f.task.pc with
  | .idle => True
  | .copying sl _ n rest => Accepted sl (n + rest.length) f.want (~~~Crc.update castagnoli f.reg rest)
  | .checking sl n => Accepted sl n f.want (~~~f.reg)
  | .failed => False

/-- The answer to the request for the next slice is what the peer sends for it over a link. -/
def Fetch.Linked (content : List UInt8) (f : Fetch) : FetchEvent → Prop
  | .answer s => ∀ sl ∈ f.task.slices.head?, ∃ fault,
      Carries (sendSlice content sl.offset sl.length fault) s
  | _ => True

theorem on_file {e : FetchEvent} (h : f.on fmt file e = some (file', f')) : f'.file = f.file := by
  cases e with
  | answer s | read n | writeAt | eof | fail =>
    obtain ⟨r, -, heq⟩ := Option.map_eq_some_iff.mp h
    cases heq
    rfl
  | check =>
    simp only [Fetch.on] at h
    split at h
    · split at h <;> cases h <;> rfl
    · cases h

/- Reading on changes neither the length nor the sum a stream will have in the end. -/
theorem passing_read {n : ℕ} (h : f.on fmt file (.read n) = some (file', f')) :
    f'.Passing ↔ f.Passing := by
  obtain ⟨num, name, ⟨slices, pc, writes⟩, reg, want⟩ := f
  obtain ⟨r, hr, heq⟩ := Option.map_eq_some_iff.mp h
  cases heq
  cases pc with
  | idle | checking | failed => cases hr
  | copying sl sw got rest =>
    cases writes with
    | cons w writes => cases hr
    | nil =>
      simp only [Task.step] at hr
      split at hr
      next hn =>
        cases hr
        have hlen : got + n + (rest.drop n).length = got + rest.length := by
          rw [List.length_drop]
          omega
        have hsum : Crc.update castagnoli (Crc.update castagnoli reg (rest.take n)) (rest.drop n) =
            Crc.update castagnoli reg rest := by
          rw [← Crc.update_append, List.take_append_drop]
        simp only [Fetch.Passing, TaskPC.arriving, hlen, hsum]
      next => cases hr

theorem passing_eof (h : f.on fmt file .eof = some (file', f')) : f'.Passing ↔ f.Passing := by
  obtain ⟨num, name, ⟨slices, pc, writes⟩, reg, want⟩ := f
  obtain ⟨r, hr, heq⟩ := Option.map_eq_some_iff.mp h
  cases heq
  cases pc with
  | idle | checking | failed => cases hr
  | copying sl sw got rest =>
    cases rest with
    | cons b rest => cases writes <;> cases hr
    | nil =>
      cases writes with
      | cons w writes => cases hr
      | nil =>
        cases hr
        exact Iff.rfl

/- A task on its way to a failed check stays on it. -/
theorem passing_of_on {e : FetchEvent} (h : f.on fmt file e = some (file', f')) (hp : f'.Passing) :
    f.Passing := by
  obtain ⟨num, name, ⟨slices, pc, writes⟩, reg, want⟩ := f
  cases e with
  | answer s =>
    obtain ⟨r, hr, -⟩ := Option.map_eq_some_iff.mp h
    cases pc with
    | idle => trivial
    | copying | checking | failed => cases hr
  | read n => exact (passing_read h).mp hp
  | writeAt =>
    obtain ⟨r, hr, heq⟩ := Option.map_eq_some_iff.mp h
    cases heq
    cases writes with
    | nil => cases pc <;> cases hr
    | cons w writes =>
      cases hrun : w.run file with
      | none => cases pc <;> simp only [Task.step, hrun] at hr <;> cases hr <;> exact hp.elim
      | some file₁ => cases pc <;> simp only [Task.step, hrun] at hr <;> cases hr <;> exact hp
  | eof => exact (passing_eof h).mp hp
  | check =>
    cases pc with
    | idle | copying | failed => cases h
    | checking sl got =>
      cases writes with
      | cons w writes => cases h
      | nil =>
        cases hcheck : checkSlice fmt name sl got want (~~~reg) with
        | error err =>
          simp only [Fetch.on, hcheck] at h
          cases h
          exact hp.elim
        | ok u => exact checkSlice_ok.mp hcheck
  | fail =>
    obtain ⟨r, hr, heq⟩ := Option.map_eq_some_iff.mp h
    cases heq
    simp only [Task.step] at hr
    split at hr
    · cases hr
    · cases hr
      exact hp.elim

/- A step of a task that will pass is a step on the bytes of the peer. -/
theorem delivers_of_on {e : FetchEvent} (ht : f.task.Honest content) (hlink : f.Linked content e)
    (h : f.on fmt file e = some (file', f')) (hp : f'.Passing) :
    ∃ a, f.task.Delivers content a ∧ f.task.step file a = some (file', f'.task) := by
  have hpass := passing_of_on h hp
  cases e with
  | answer s =>
    obtain ⟨r, hr, heq⟩ := Option.map_eq_some_iff.mp h
    cases heq
    refine ⟨.answer s.body, fun sl hsl => ?_, hr⟩
    obtain ⟨fault, hcarry⟩ := hlink sl hsl
    obtain ⟨num, name, ⟨slices, pc, writes⟩, reg, want⟩ := f
    cases slices with
    | nil => cases hsl
    | cons sl' slices =>
      cases hsl
      cases pc with
      | copying | checking | failed => cases hr
      | idle =>
        cases hr
        simp only [Fetch.Passing, Nat.zero_add] at hp
        exact accepted_body (ht.slices sl List.mem_cons_self) hcarry hp
  | read n =>
    obtain ⟨r, hr, heq⟩ := Option.map_eq_some_iff.mp h
    cases heq
    exact ⟨.read n, trivial, hr⟩
  | writeAt =>
    obtain ⟨r, hr, heq⟩ := Option.map_eq_some_iff.mp h
    cases heq
    exact ⟨.writeAt, trivial, hr⟩
  | eof =>
    obtain ⟨r, hr, heq⟩ := Option.map_eq_some_iff.mp h
    cases heq
    exact ⟨.eof, trivial, hr⟩
  | check =>
    obtain ⟨num, name, ⟨slices, pc, writes⟩, reg, want⟩ := f
    cases pc with
    | idle | copying | failed => cases h
    | checking sl got =>
      cases writes with
      | cons w writes => cases h
      | nil =>
        have hacc : Accepted sl got want (~~~reg) := hpass
        simp only [Fetch.on, checkSlice_ok.mpr hacc] at h
        cases h
        refine ⟨.check, trivial, ?_⟩
        simp only [Task.step, if_pos hacc.1]
  | fail =>
    obtain ⟨r, hr, heq⟩ := Option.map_eq_some_iff.mp h
    cases heq
    simp only [Task.step] at hr
    split at hr
    · cases hr
    · cases hr
      exact hp.elim

/-! ### All files -/

/-- The tasks of one file, over that file. -/
def fileView (c : Config (List (List UInt8)) Fetch) (i : ℕ) (file : List UInt8) :
    Config (List UInt8) Task :=
  ⟨file, (c.threads.filter (·.file == i)).map (·.task)⟩

theorem mem_fileView {c : Config (List (List UInt8)) Fetch} {i : ℕ} {t : Task} :
    t ∈ (fileView c i file).threads ↔ ∃ f ∈ c.threads, f.file = i ∧ f.task = t := by
  simp only [fileView, List.mem_map, List.mem_filter, beq_iff_eq, and_assoc]

/-- While every task will pass, each file is on the way to the content it has at the peer. -/
structure OnTheWay (contents : List (List UInt8)) (c : Config (List (List UInt8)) Fetch) : Prop where
  count : c.shared.length = contents.length
  files : (∀ f ∈ c.threads, f.Passing) → ∀ (i : ℕ) content file, contents[i]? = some content →
    c.shared[i]? = some file → Accounted content (fileView c i file)

/-- Every answer comes from the peer over a link. -/
def Linked (contents : List (List UInt8)) (c : Config (List (List UInt8)) Fetch) :
    PoolEvent Fetch FetchEvent Empty → Prop
  | .run i e => ∀ f ∈ c.threads[i]?, ∀ content, contents[f.file]? = some content → f.Linked content e
  | _ => True

theorem fetching_run {c c' : Config (List (List UInt8)) Fetch} {k : ℕ} {e : FetchEvent}
    (h : (fetching fmt).next c (.run k e) = some c') :
    ∃ f file file' f', c.threads[k]? = some f ∧ c.shared[f.file]? = some file ∧
      f.on fmt file e = some (file', f') ∧
      c' = ⟨c.shared.set f.file file', c.threads.set k f'⟩ := by
  obtain ⟨f, files', f', hf, hs, rfl⟩ := Program.ofStep_run h
  obtain ⟨file, hfile, hr⟩ := Option.bind_eq_some_iff.mp hs
  obtain ⟨r, hon, heq⟩ := Option.map_eq_some_iff.mp hr
  cases heq
  exact ⟨f, file, r.1, r.2, hf, hfile, hon, rfl⟩

theorem next_onTheWay {contents : List (List UInt8)}
    (hfit : ∀ content ∈ contents, (content.length : ℤ) < 2 ^ 63)
    (c : Config (List (List UInt8)) Fetch) (e : PoolEvent Fetch FetchEvent Empty)
    (c' : Config (List (List UInt8)) Fetch) (hc : OnTheWay contents c) (hg : Linked contents c e)
    (h : (fetching fmt).next c e = some c') : OnTheWay contents c' := by
  cases e with
  | start t => cases h
  | env o => cases o
  | run k e =>
    obtain ⟨f, file, file', f', hf, hfile, hon, rfl⟩ := fetching_run h
    have hk : k < c.threads.length := (List.getElem?_eq_some_iff.mp hf).1
    have hmem : f ∈ c.threads := List.mem_of_getElem? hf
    have hsame : f'.file = f.file := on_file hon
    refine ⟨by rw [List.length_set]; exact hc.count, fun hpass i content g hcontent hg' => ?_⟩
    have hown : f'.Passing := hpass f' (List.mem_of_getElem? (List.getElem?_set_self hk))
    -- whoever stood by passes as before, and so did the task that moved
    have hbefore : ∀ u ∈ c.threads, u.Passing := by
      intro u hu
      obtain ⟨j, hj⟩ := List.mem_iff_getElem?.mp hu
      by_cases hjk : k = j
      · subst hjk
        rw [hf] at hj
        cases hj
        exact passing_of_on hon hown
      · refine hpass u (List.mem_of_getElem? (i := j) ?_)
        rw [List.getElem?_set_ne hjk]
        exact hj
    have hmoved : ∀ u ∈ c.threads.set k f', u = f' ∨ u ∈ c.threads :=
      fun u hu => (List.mem_or_eq_of_mem_set hu).symm
    have hkept : ∀ u ∈ c.threads, u.file = i → f.file ≠ i → u ∈ c.threads.set k f' := by
      intro u hu hui hne
      obtain ⟨j, hj⟩ := List.mem_iff_getElem?.mp hu
      have hjk : k ≠ j := by
        rintro rfl
        rw [hf] at hj
        cases hj
        exact hne hui
      refine List.mem_of_getElem? (i := j) ?_
      rw [List.getElem?_set_ne hjk]
      exact hj
    by_cases hi : f.file = i
    · subst hi
      have hlt : f.file < c.shared.length := (List.getElem?_eq_some_iff.mp hfile).1
      have hgf : file' = g := by simpa [List.getElem?_set_self hlt] using hg'
      subst hgf
      have hold := hc.files hbefore f.file content file hcontent hfile
      have hhonest := hold.honest f.task (mem_fileView.mpr ⟨f, hmem, rfl, rfl⟩)
      obtain ⟨a, hd, hstep⟩ := delivers_of_on hhonest (hg f hf content hcontent) hon hown
      have hadv := step_advances (hfit content (List.mem_of_getElem? hcontent)) hhonest hold.below hd hstep
      refine ⟨hadv.below, fun t ht => ?_, fun j b hb hne => ?_⟩
      · obtain ⟨u, hu, hui, rfl⟩ := mem_fileView.mp ht
        rcases hmoved u hu with rfl | hu
        · exact hadv.honest
        · exact hold.honest u.task (mem_fileView.mpr ⟨u, hu, hui, rfl⟩)
      · rcases hold.owed j b hb hne with hdone | ⟨t, ht, howes⟩
        · exact Or.inl (hadv.keeps j hdone)
        · obtain ⟨u, hu, hui, rfl⟩ := mem_fileView.mp ht
          obtain ⟨m, hm⟩ := List.mem_iff_getElem?.mp hu
          by_cases hmk : k = m
          · subst hmk
            rw [hf] at hm
            cases hm
            rcases hadv.owes j b hb hne howes with ho | hdone
            · refine Or.inr ⟨f'.task, mem_fileView.mpr ⟨f', ?_, hsame, rfl⟩, ho⟩
              exact List.mem_of_getElem? (List.getElem?_set_self hk)
            · exact Or.inl hdone
          · refine Or.inr ⟨u.task, mem_fileView.mpr ⟨u, List.mem_of_getElem? (i := m) ?_, hui, rfl⟩, howes⟩
            rw [List.getElem?_set_ne hmk]
            exact hm
    · have hgi : c.shared[i]? = some g := by
        rw [← hg', List.getElem?_set_ne hi]
      have hold := hc.files hbefore i content g hcontent hgi
      refine ⟨hold.below, fun t ht => ?_, fun j b hb hne => ?_⟩
      · obtain ⟨u, hu, hui, rfl⟩ := mem_fileView.mp ht
        rcases hmoved u hu with rfl | hu
        · exact absurd (hsame.symm.trans hui) hi
        · exact hold.honest u.task (mem_fileView.mpr ⟨u, hu, hui, rfl⟩)
      · rcases hold.owed j b hb hne with hdone | ⟨t, ht, howes⟩
        · exact Or.inl hdone
        · obtain ⟨u, hu, hui, rfl⟩ := mem_fileView.mp ht
          exact Or.inr ⟨u.task, mem_fileView.mpr ⟨u, hkept u hu hui hi, hui, rfl⟩, howes⟩

theorem passing_of_done (h : f.task.done) : f.Passing := by
  obtain ⟨-, hpc, -⟩ := h
  simp only [Fetch.Passing, hpc]

/- When every task has ended well, every file is there. -/
theorem OnTheWay.files_eq {contents : List (List UInt8)} {c : Config (List (List UInt8)) Fetch}
    (hc : OnTheWay contents c) (hdone : ∀ f ∈ c.threads, f.task.done) : c.shared = contents := by
  apply List.ext_getElem?
  intro i
  by_cases hi : i < contents.length
  · have hi' : i < c.shared.length := by rw [hc.count]; exact hi
    have hview := hc.files (fun f hf => passing_of_done (hdone f hf)) i _ _
      (List.getElem?_eq_getElem hi) (List.getElem?_eq_getElem hi')
    have heq := accounted_done hview fun t ht => by
      obtain ⟨f, hf, -, rfl⟩ := mem_fileView.mp ht
      exact hdone f hf
    rw [List.getElem?_eq_getElem hi, List.getElem?_eq_getElem hi']
    exact congrArg some heq
  · rw [List.getElem?_eq_none (by rw [hc.count]; omega), List.getElem?_eq_none (by omega)]

/-! ### A link that changes nothing -/

/-- The peer answers with the whole slice, the link changes nothing and nothing fails. -/
def Fetch.Clean (content : List UInt8) (f : Fetch) : FetchEvent → Prop
  | .answer s => ∀ sl ∈ f.task.slices.head?, s = sendSlice content sl.offset sl.length none
  | .fail => False
  | .read _ | .writeAt | .eof | .check => True

def Clean (contents : List (List UInt8)) (c : Config (List (List UInt8)) Fetch) :
    PoolEvent Fetch FetchEvent Empty → Prop
  | .run i e => ∀ f ∈ c.threads[i]?, ∃ content, contents[f.file]? = some content ∧ f.Clean content e
  | _ => True

theorem carries_refl {s : SliceStream} (h : (s.body.length : ℤ) < 2 ^ 63) : Carries s s :=
  ⟨Or.inr rfl, Or.inr ⟨s.body, [], [], [], rfl, by decide, by simp, by simp⟩, h⟩

theorem ofNat_length_bytes (hsl : sl.Inside content) :
    Int64.ofNat (sl.bytes content).length = sl.length := by
  have hlen := length_bytes hsl
  have hmax := sl.length.toInt_lt
  obtain ⟨h1, h2, h3⟩ := hsl
  have hspan : sl.span.start = sl.offset.toInt ∧ sl.span.stop = sl.offset.toInt + sl.length.toInt :=
    ⟨rfl, rfl⟩
  apply Int64.toInt_inj.mp
  rw [toInt_ofNat_of_fits (by omega), hlen]
  omega

theorem sendSlice_none (hsl : sl.Inside content) :
    sendSlice content sl.offset sl.length none =
      ⟨sl.bytes content, hexSum (Crc.sum castagnoli (sl.bytes content))⟩ := by
  simp only [sendSlice, sectionBytes_eq hsl, ofNat_length_bytes hsl, ne_eq, not_true_eq_false, if_false]

theorem Fetch.Clean.linked {e : FetchEvent} (ht : f.task.Honest content) (h : f.Clean content e) :
    f.Linked content e := by
  cases e with
  | answer s =>
    intro sl hsl
    have hs := h sl hsl
    have hin := ht.slices sl (List.mem_of_mem_head? hsl)
    refine ⟨none, hs ▸ carries_refl ?_⟩
    have hlen := length_bytes hin
    have hmax := sl.length.toInt_lt
    rw [hs, sendSlice_none hin]
    simp only
    omega
  | read n | writeAt | eof | check | fail => trivial

/- A task whose bytes arrive as they were sent goes on to a check it passes. -/
theorem passing_on {e : FetchEvent} (hf : Below content file) (ht : f.task.Honest content)
    (hp : f.Passing) (hclean : f.Clean content e) (h : f.on fmt file e = some (file', f')) :
    f'.Passing := by
  obtain ⟨num, name, ⟨slices, pc, writes⟩, reg, want⟩ := f
  cases e with
  | answer s =>
    obtain ⟨r, hr, heq⟩ := Option.map_eq_some_iff.mp h
    cases heq
    cases pc with
    | copying | checking | failed => cases hr
    | idle =>
      cases slices with
      | nil => cases hr
      | cons sl slices =>
        cases hr
        have hin := ht.slices sl List.mem_cons_self
        have hs : s = _ := (hclean sl rfl).trans (sendSlice_none hin)
        subst hs
        refine ⟨?_, hexSum_ne_empty _, rfl⟩
        rw [Nat.zero_add]
        exact ofNat_length_bytes hin
  | read n => exact (passing_read h).mpr hp
  | writeAt =>
    obtain ⟨r, hr, heq⟩ := Option.map_eq_some_iff.mp h
    cases heq
    cases writes with
    | nil => cases pc <;> cases hr
    | cons w writes =>
      obtain ⟨file₁, hrun, -⟩ := honest_run (ht.writes w List.mem_cons_self) hf
      cases pc <;> simp only [Task.step, hrun] at hr <;> cases hr <;> exact hp
  | eof => exact (passing_eof h).mpr hp
  | check =>
    cases pc with
    | idle | copying | failed => cases h
    | checking sl got =>
      cases writes with
      | cons w writes => cases h
      | nil =>
        simp only [Fetch.on, checkSlice_ok.mpr (show Accepted sl got want (~~~reg) from hp)] at h
        cases h
        trivial
  | fail => exact hclean.elim

theorem fetch_task_progress (fmt : Verbs) (hf : Below content file) (ht : f.task.Honest content) (hp : f.Passing)
    (hnot : ¬f.task.done) : ∃ e, f.Clean content e ∧ ∃ r, f.on fmt file e = some r := by
  obtain ⟨a, hd, r, hr⟩ := task_progress hf ht hnot
  cases a with
  | answer stream =>
    obtain ⟨num, name, ⟨slices, pc, writes⟩, reg, want⟩ := f
    cases pc with
    | copying | checking | failed => cases hr
    | idle =>
      cases slices with
      | nil => cases hr
      | cons sl slices =>
        refine ⟨.answer (sendSlice content sl.offset sl.length none), fun sl' hsl' => ?_, _, rfl⟩
        cases hsl'
        rfl
  | read n => exact ⟨.read n, trivial, _, Option.map_eq_some_iff.mpr ⟨r, hr, rfl⟩⟩
  | writeAt => exact ⟨.writeAt, trivial, _, Option.map_eq_some_iff.mpr ⟨r, hr, rfl⟩⟩
  | eof => exact ⟨.eof, trivial, _, Option.map_eq_some_iff.mpr ⟨r, hr, rfl⟩⟩
  | check =>
    obtain ⟨num, name, ⟨slices, pc, writes⟩, reg, want⟩ := f
    cases pc with
    | idle | copying | failed => cases hr
    | checking sl got =>
      cases writes with
      | cons w writes => cases hr
      | nil =>
        refine ⟨.check, trivial, ?_⟩
        simp only [Fetch.on, checkSlice_ok.mpr (show Accepted sl got want (~~~reg) from hp)]
        exact ⟨_, rfl⟩
  | fail => exact hd.elim

/-! ### Whole fetches -/

/-- The tasks of `fetchFiles` when all files are staged. -/
def startFetch (staged : List StagedFile) : Config (List (List UInt8)) Fetch :=
  ⟨staged.map fun s => List.replicate s.size.toInt.toNat 0,
    staged.zipIdx.flatMap fun s => s.1.groups.map fun slices =>
      ⟨s.2, Path.base unix s.1.path, ⟨slices, .idle, []⟩, 0, ""⟩⟩

/-- What is staged for a file is a plan of its content. -/
def Prepared (content : List UInt8) (s : StagedFile) : Prop :=
  PlannedAs content ⟨s.size, s.groups.flatten⟩

theorem Accounted.of_mem {c c' : Config (List UInt8) Task} (hc : Accounted content c)
    (hs : c'.shared = c.shared) (hmem : ∀ t, t ∈ c'.threads ↔ t ∈ c.threads) : Accounted content c' := by
  refine ⟨hs ▸ hc.below, fun t ht => hc.honest t ((hmem t).mp ht), fun i b hb hne => ?_⟩
  rw [hs]
  exact (hc.owed i b hb hne).imp_right fun ⟨t, ht, ho⟩ => ⟨t, (hmem t).mpr ht, ho⟩

theorem mem_startFetch {staged : List StagedFile} :
    f ∈ (startFetch staged).threads ↔ ∃ (i : ℕ) (s : StagedFile) (slices : List PeerSlice),
      staged[i]? = some s ∧ slices ∈ s.groups ∧
        f = ⟨i, Path.base unix s.path, ⟨slices, .idle, []⟩, 0, ""⟩ := by
  simp only [startFetch, List.mem_flatMap, List.mem_map, Prod.exists, List.mem_zipIdx_iff_getElem?]
  constructor
  · rintro ⟨s, i, hs, slices, hslices, rfl⟩
    exact ⟨i, s, slices, hs, hslices, rfl⟩
  · rintro ⟨i, s, slices, hs, hslices, rfl⟩
    exact ⟨s, i, hs, slices, hslices, rfl⟩

theorem startFetch_onTheWay {contents : List (List UInt8)} {staged : List StagedFile}
    (hfit : ∀ content ∈ contents, (content.length : ℤ) < 2 ^ 63)
    (hplan : List.Forall₂ Prepared contents staged) : OnTheWay contents (startFetch staged) := by
  have hcount := hplan.length_eq
  refine ⟨by simp only [startFetch, List.length_map, hcount], fun _ i content g hcontent hg => ?_⟩
  obtain ⟨s, hs, rfl⟩ : ∃ s, staged[i]? = some s ∧ List.replicate s.size.toInt.toNat 0 = g := by
    simpa only [startFetch, List.getElem?_map, Option.map_eq_some_iff] using hg
  have hp : Prepared content s := by
    have hi := (List.getElem?_eq_some_iff.mp hcontent)
    have hi' := (List.getElem?_eq_some_iff.mp hs)
    obtain ⟨hlt, rfl⟩ := hi
    obtain ⟨hlt', rfl⟩ := hi'
    exact hplan.get hlt hlt'
  have hlen := hfit content (List.mem_of_getElem? hcontent)
  have hsize : s.size = Int64.ofNat content.length := by
    apply Int64.toInt_inj.mp
    rw [toInt_ofNat_of_fits hlen]
    exact hp.size
  have hstart := start_accounted hlen (List.Perm.refl _) hp.runs hp.holes
  refine hstart.of_mem (by rw [← hsize]; rfl) fun t => ?_
  rw [mem_fileView]
  simp only [startTransfer, List.mem_map]
  constructor
  · rintro ⟨f, hf, rfl, rfl⟩
    obtain ⟨i, s', slices, hs', hslices, rfl⟩ := mem_startFetch.mp hf
    have hsame : s' = s := Option.some.inj (hs'.symm.trans hs)
    exact ⟨slices, hsame ▸ hslices, rfl⟩
  · rintro ⟨slices, hslices, rfl⟩
    exact ⟨_, mem_startFetch.mpr ⟨i, s, slices, hs, hslices, rfl⟩, rfl, rfl⟩

/-- A fetch on the way with nothing lost so far. -/
structure Intact (contents : List (List UInt8)) (c : Config (List (List UInt8)) Fetch) : Prop where
  way : OnTheWay contents c
  passing : ∀ f ∈ c.threads, f.Passing
  numbers : ∀ f ∈ c.threads, f.file < contents.length

theorem Intact.task {contents : List (List UInt8)} {c : Config (List (List UInt8)) Fetch}
    (hc : Intact contents c) (hf : f ∈ c.threads) :
    ∃ content file, contents[f.file]? = some content ∧ c.shared[f.file]? = some file ∧
      f.task.Honest content ∧ Below content file := by
  have hlt := hc.numbers f hf
  have hlt' : f.file < c.shared.length := by rw [hc.way.count]; exact hlt
  have hacc := hc.way.files hc.passing f.file _ _ (List.getElem?_eq_getElem hlt)
    (List.getElem?_eq_getElem hlt')
  exact ⟨_, _, List.getElem?_eq_getElem hlt, List.getElem?_eq_getElem hlt',
    hacc.honest _ (mem_fileView.mpr ⟨f, hf, rfl, rfl⟩), hacc.below⟩

theorem Intact.linked {contents : List (List UInt8)} {c : Config (List (List UInt8)) Fetch}
    {e : PoolEvent Fetch FetchEvent Empty} (hc : Intact contents c) (hg : Clean contents c e) :
    Linked contents c e := by
  cases e with
  | start t => trivial
  | env o => trivial
  | run k e =>
    intro f hf content hcontent
    obtain ⟨content', hcontent', hclean⟩ := hg f hf
    obtain ⟨content'', -, hcontent'', -, hhonest, -⟩ := hc.task (List.mem_of_getElem? hf)
    cases hcontent.symm.trans hcontent'
    cases hcontent.symm.trans hcontent''
    exact hclean.linked hhonest

theorem startFetch_intact {contents : List (List UInt8)} {staged : List StagedFile}
    (hfit : ∀ content ∈ contents, (content.length : ℤ) < 2 ^ 63)
    (hplan : List.Forall₂ Prepared contents staged) : Intact contents (startFetch staged) := by
  refine ⟨startFetch_onTheWay hfit hplan, fun f hf => ?_, fun f hf => ?_⟩
  · obtain ⟨i, s, slices, -, -, rfl⟩ := mem_startFetch.mp hf
    trivial
  · obtain ⟨i, s, slices, hs, -, rfl⟩ := mem_startFetch.mp hf
    rw [hplan.length_eq]
    exact (List.getElem?_eq_some_iff.mp hs).1

def fetchWork (c : Config (List (List UInt8)) Fetch) : ℕ := (c.threads.map (·.task.work)).sum

theorem next_intact {contents : List (List UInt8)}
    (hfit : ∀ content ∈ contents, (content.length : ℤ) < 2 ^ 63)
    (c : Config (List (List UInt8)) Fetch) (e : PoolEvent Fetch FetchEvent Empty)
    (c' : Config (List (List UInt8)) Fetch) (hc : Intact contents c) (hg : Clean contents c e)
    (h : (fetching fmt).next c e = some c') : Intact contents c' ∧ fetchWork c' < fetchWork c := by
  cases e with
  | start t => cases h
  | env o => cases o
  | run k e =>
    obtain ⟨f, file, file', f', hf, hfile, hon, hc'⟩ := fetching_run h
    have hmem : f ∈ c.threads := List.mem_of_getElem? hf
    obtain ⟨content, hcontent, hclean⟩ := hg f hf
    obtain ⟨content', file₁, hcontent', hfile₁, hhonest, hbelow⟩ := hc.task hmem
    cases hcontent.symm.trans hcontent'
    cases hfile.symm.trans hfile₁
    have hlink := hclean.linked hhonest
    have hway := next_onTheWay hfit c (.run k e) c' hc.way (hc.linked hg) h
    have hpass := passing_on hbelow hhonest (hc.passing f hmem) hclean hon
    obtain ⟨a, hd, hstep⟩ := delivers_of_on hhonest hlink hon hpass
    have hadv := step_advances (hfit content (List.mem_of_getElem? hcontent)) hhonest hbelow hd hstep
    subst hc'
    refine ⟨⟨hway, fun u hu => ?_, fun u hu => ?_⟩,
      sum_map_set_lt (fun u : Fetch => u.task.work) hf hadv.work⟩
    · rcases List.mem_or_eq_of_mem_set hu with hu | rfl
      · exact hc.passing u hu
      · exact hpass
    · rcases List.mem_or_eq_of_mem_set hu with hu | rfl
      · exact hc.numbers u hu
      · rw [on_file hon]
        exact hc.numbers f hmem

theorem fetch_progress {contents : List (List UInt8)} (c : Config (List (List UInt8)) Fetch)
    (hc : Intact contents c) (hnot : ¬∀ f ∈ c.threads, f.task.done) :
    ∃ e c', Clean contents c e ∧ (fetching fmt).machine.step c e = some c' := by
  push Not at hnot
  obtain ⟨f, hmem, hnot⟩ := hnot
  obtain ⟨i, hi⟩ := List.mem_iff_getElem?.mp hmem
  obtain ⟨content, file, hcontent, hfile, hhonest, hbelow⟩ := hc.task hmem
  obtain ⟨e, hclean, r, hr⟩ := fetch_task_progress fmt hbelow hhonest (hc.passing f hmem) hnot
  refine ⟨.run i e, ⟨c.shared.set f.file r.1, c.threads.set i r.2 ++ []⟩, fun u hu => ?_, ?_⟩
  · cases hi.symm.trans hu
    exact ⟨content, hcontent, hclean⟩
  · apply (fetching fmt).next_run_eq hi
    simp only [fetching, Program.ofStep, Fetch.step, hfile, Option.bind_some, hr, Option.map_some]

/-- Links may lose trailers, cut or stretch streams and change up to four bytes in a row: when
every task has ended well the staged files are those of the peer. Without damage no task fails,
and every fetch can be brought to that end. -/
theorem fetched_files_exact (fmt : Verbs) (contents : List (List UInt8)) (staged : List StagedFile)
    (hfit : ∀ content ∈ contents, (content.length : ℤ) < 2 ^ 63)
    (hplan : List.Forall₂ Prepared contents staged) (es : List (PoolEvent Fetch FetchEvent Empty))
    (c : Config (List (List UInt8)) Fetch)
    (h : (fetching fmt).machine.exec (startFetch staged) es = some c) :
    ((fetching fmt).machine.Guarded (Linked contents) (startFetch staged) es →
      (∀ f ∈ c.threads, f.task.done) → c.shared = contents) ∧
    ((fetching fmt).machine.Guarded (Clean contents) (startFetch staged) es →
      (∀ f ∈ c.threads, f.task.pc ≠ .failed) ∧ ∃ es' c',
        (fetching fmt).machine.Guarded (Clean contents) c es' ∧
        (fetching fmt).machine.exec c es' = some c' ∧ (∀ f ∈ c'.threads, f.task.done) ∧
        c'.shared = contents) := by
  constructor
  · intro hg hdone
    have hc : OnTheWay contents c := (fetching fmt).machine.exec_invariant (next_onTheWay hfit)
      (startFetch_onTheWay hfit hplan) hg h
    exact hc.files_eq hdone
  · intro hg
    have hrun : ∀ {c₀ c₁ es}, Intact contents c₀ → (fetching fmt).machine.Guarded (Clean contents) c₀ es →
        (fetching fmt).machine.exec c₀ es = some c₁ → Intact contents c₁ :=
      (fetching fmt).machine.exec_invariant fun c e c' hc he h => (next_intact hfit c e c' hc he h).1
    have hc : Intact contents c := hrun (startFetch_intact hfit hplan) hg h
    refine ⟨fun f hf hfail => ?_, ?_⟩
    · have hp := hc.passing f hf
      simp only [Fetch.Passing, hfail] at hp
    · obtain ⟨es', c', hg', hexec', hdone⟩ :=
        (fetching fmt).machine.exec_completes fetchWork (next_intact hfit) fetch_progress hc
      exact ⟨es', c', hg', hexec', hdone, (hrun hc hg' hexec').way.files_eq hdone⟩

/- A sparse file and a small one, with no damage. -/
theorem two_files_fetched : ∃ es c,
    (fetching noVerbs).machine.exec (startFetch [⟨[0x61], 8, [[⟨2, 1⟩], [⟨6, 2⟩]]⟩, ⟨[0x62], 1, [[⟨0, 1⟩]]⟩])
      es = some c ∧ c.shared = [sparseFile, [3]] := by
  have hsparse : Prepared sparseFile ⟨[0x61], 8, [[⟨2, 1⟩], [⟨6, 2⟩]]⟩ :=
    ⟨rfl, sparseFile_scanned.runs, sparseFile_scanned.holes⟩
  have hsmall : Prepared [3] ⟨[0x62], 1, [[⟨0, 1⟩]]⟩ := by
    refine ⟨rfl, ⟨by decide, by decide⟩, fun i b hb _ => ?_⟩
    have hlt : i < 1 := (List.getElem?_eq_some_iff.mp hb).1
    obtain rfl : i = 0 := by omega
    exact ⟨_, List.mem_cons_self, by decide, by decide⟩
  obtain ⟨-, es, c, -, hexec, -, hfiles⟩ := (fetched_files_exact noVerbs [sparseFile, [3]] _ (by decide)
    (.cons hsparse (.cons hsmall .nil)) [] _ rfl).2 trivial
  exact ⟨es, c, hexec, hfiles⟩

end VkCocoon.Peer
