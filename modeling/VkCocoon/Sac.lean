import Mathlib.Data.List.Perm.Subperm
import VkCocoon.Lib.Proc
import VkCocoon.Lib.Scan
import VkCocoon.Types

/-!
# Static addresses of a Windows guest

A Windows VM gets its static addresses over the serial console (SAC).  The provider lists
the adapters until all are there, gives each static NIC its address, and lists again until
the address is shown.  The reading of the console output is modelled as far as the text, the
console itself by what its owner promises: a listing shows the adapters, an adapter that
shows the address it was given keeps it.
-/

namespace VkCocoon.Sac
open Lib Lib.Scan

abbrev Text := List Char

def sacPrompt : Text := ['S', 'A', 'C', '>']

/-! ### The output of a listing -/

/-- `\s` -/
def isSpace (c : Char) : Bool := c == '\t' || c == '\n' || c == '\x0c' || c == '\r' || c == ' '

/-- The groups of a match of `netLineRe`. -/
structure NetMatch where
  num : Text
  ip : Text
deriving DecidableEq, Repr

/- No two neighbours of the expression can take the same character, so that the longest run is the
only one that can lead to a match. -/
def netLineRe (t : Text) : Option (NetMatch × Text) := do
  let t ← lit ['N', 'e', 't', ':'] t
  let (_, t) ← many1 isSpace t
  let (num, t) ← many1 Char.isDigit t
  let t ← lit [','] t
  let (_, t) ← many1 isSpace t
  let t ← lit ['I', 'p', '='] t
  let (ip, t) ← many1 (fun c => !isSpace c) t
  return (⟨num, ip⟩, t)

def findAllStringSubmatch (output : Text) : List NetMatch := findAll netLineRe output.length output

/-- `strconv.Atoi` on digits, with the error dropped: what is out of range becomes the largest. -/
def atoi (digits : Text) : ℕ := min (Nat.ofDigitChars 10 digits 0) (2 ^ 63 - 1)

/-- The loop of `ParseNetEntries`, with the numbers seen so far. -/
def distinctNums (seen : List ℕ) : List NetMatch → List ℕ
  | [] => []
  | m :: ms =>
    if atoi m.num ∈ seen then distinctNums seen ms
    else atoi m.num :: distinctNums (atoi m.num :: seen) ms

def parseNetEntries (output : Text) : List ℕ := distinctNums [] (findAllStringSubmatch output)

def netHasIP (output : Text) (netNum : ℕ) (ip : Text) : Bool :=
  (findAllStringSubmatch output).any fun m => atoi m.num == netNum && m.ip == ip

/-! ### The session -/

inductive ReadError where
  | timeout
  | other (err : String)
deriving DecidableEq, Repr

/-- How far a turn of the loop in `readUntilPrompt` gets. -/
inductive ReadEvent where
  | canceled (err : String)
  | expired
  | probeFailed (err : String)
  | read (data : Text) (err : Option ReadError)
deriving DecidableEq, Repr

/- What was read before an error is returned with it, no caller looks at it. -/
def readUntilPrompt (sb : Text) : List ReadEvent → Except String Text
  | [] => .error "timeout waiting for SAC> prompt"
  | .expired :: _ => .error "timeout waiting for SAC> prompt"
  | .canceled err :: _ => .error err
  | .probeFailed err :: _ => .error ("write prompt probe: " ++ err)
  | .read data err :: rest =>
    if !data.isEmpty && occurs sacPrompt (sb ++ data) then .ok (sb ++ data)
    else
      match err with
      | some (.other err) => .error ("read: " ++ err)
      | some .timeout => readUntilPrompt (sb ++ data) rest
      | none => readUntilPrompt (sb ++ data) rest

inductive ConsoleCall where
  /-- the loop of `dial` -/
  | connect
  | drain
  | write (text : Text)
  /-- the turns of `readUntilPrompt` -/
  | reads (probe : Text)
  | sleep
  /-- `markPostCloneState` and `markLifecycleState` with failed -/
  | markFailed (message : String)
deriving DecidableEq, Repr

abbrev ConsoleAns : ConsoleCall → Type
  | .connect => Option String
  | .drain => Unit
  | .write _ => Option String
  | .reads _ => List ReadEvent
  | .sleep => Option String
  | .markFailed _ => Unit

abbrev ConsoleCode := Proc ConsoleCall ConsoleAns

def console (q : ConsoleCall) : ConsoleCode (ConsoleAns q) := Proc.ask q

/-- `Dialer.Dial` -/
def dial : ConsoleCode (Option String) := do
  match ← console .connect with
  | some err => return some err
  | none =>
    match readUntilPrompt [] (← console (.reads ['\r', '\n'])) with
    | .error err => return some ("sac wait prompt: " ++ err)
    | .ok _ => return none

/- `quote` is the verb `%q`. -/
def sacCommand (quote : Text → String) (cmd : Text) : ConsoleCode (Except String Text) := do
  let _ ← console .drain
  match ← console (.write (cmd ++ ['\r', '\n'])) with
  | some err => return .error ("write command " ++ quote cmd ++ ": " ++ err)
  | none =>
    match readUntilPrompt [] (← console (.reads [])) with
    | .error err => return .error ("response to " ++ quote cmd ++ ": " ++ err)
    | .ok out => return .ok out

/-- `Session.Run` -/
def run (quote : Text → String) (cmd : List Text) : ConsoleCode (Except String Text) :=
  sacCommand quote ([' '].intercalate cmd)

/-! ### The provider's side -/

/-- `vm.Network`. -/
structure Network where
  ip : String
  prefixLen : ℤ
  gateway : String
deriving DecidableEq, Repr

/-- `vm.NetworkConfig`, with the whole network. -/
structure NIC where
  mac : String
  network : Option Network
deriving DecidableEq, Repr

/-- What the other modules know of it. -/
def NIC.config (nic : NIC) : NetworkConfig := ⟨nic.mac, nic.network.map Network.ip⟩

def subnetMask (bits : ℕ) : BitVec 32 := BitVec.allOnes 32 <<< (32 - bits)

def itoa (n : ℕ) : Text := Nat.toDigits 10 n

/-- The four bytes of the mask, as `%d.%d.%d.%d` prints them. -/
def dotted (mask : BitVec 32) : Text :=
  itoa (mask >>> 24).toNat ++ ['.'] ++ itoa ((mask >>> 16) &&& 0xff#32).toNat ++ ['.'] ++
    itoa ((mask >>> 8) &&& 0xff#32).toNat ++ ['.'] ++ itoa (mask &&& 0xff#32).toNat

def prefixToSubnet (bits : ℤ) : Text :=
  if bits ≤ 0 ∨ 32 < bits then
    ['2', '5', '5', '.', '2', '5', '5', '.', '2', '5', '5', '.', '0']
  else dotted (subnetMask bits.toNat)

def sacEnumRetries : ℕ := 60

def sacIPSetRetries : ℕ := 10

/-- The attempts that are left, and the adapters of the last listing. -/
def sacEnumerateNICs (quote : Text → String) (wantNICs : ℕ) :
    ℕ → List ℕ → ConsoleCode (Except String (List ℕ))
  | 0, netNums => return .ok netNums
  | attempts + 1, netNums => do
    let netNums := match ← run quote [['i']] with
      | .error _ => (netNums, false)
      | .ok out => (parseNetEntries out, decide (wantNICs ≤ (parseNetEntries out).length))
    if netNums.2 then return .ok netNums.1
    else if attempts = 0 then
      return .error ("sac enum exhausted: found " ++ toString netNums.1.length ++ " need " ++
        toString wantNICs)
    else
      match ← console .sleep with
      | some err => return .error err
      | none => sacEnumerateNICs quote wantNICs attempts netNums.1

def setCommand (netNum : ℕ) (net : Network) : List Text :=
  [['i'], itoa netNum, net.ip.toList, prefixToSubnet net.prefixLen, net.gateway.toList]

def sacSetNICIP (quote : Text → String) (netNum : ℕ) (net : Network) : ℕ → ConsoleCode (Option String)
  | 0 => return none
  | attempts + 1 => do
    match ← run quote (setCommand netNum net) with
    | .error err => return some ("sac set ip net " ++ toString netNum ++ ": " ++ err)
    | .ok _ =>
      let shown := match ← run quote [['i']] with
        | .error _ => false
        | .ok out => netHasIP out netNum net.ip.toList
      if shown then return none
      else if attempts = 0 then
        return some ("sac verify exhausted: net " ++ toString netNum ++ " ip " ++ net.ip ++
          " did not take effect")
      else
        match ← console .sleep with
        | some err => return some err
        | none => sacSetNICIP quote netNum net attempts

inductive StaticResult where
  /-- `ran` is false -/
  | skipped
  | applied
  | failed (err : String)
  /-- an index out of range -/
  | panicked
deriving DecidableEq, Repr

/-- The loop over the NICs from index `i` on. -/
def setNICs (quote : Text → String) (netNums : List ℕ) : ℕ → List NIC → ConsoleCode StaticResult
  | _, [] => return .applied
  | i, nic :: nics =>
    match nic.network with
    | none => setNICs quote netNums (i + 1) nics
    | some net =>
      if isStaticNIC nic.config then do
        match netNums[i]? with
        | none => return .panicked
        | some netNum =>
          match ← sacSetNICIP quote netNum net sacIPSetRetries with
          | some err => return .failed err
          | none => setNICs quote netNums (i + 1) nics
      else setNICs quote netNums (i + 1) nics

/- `guestSAC`: a dialer is configured. -/
def applyWindowsStaticIP (quote : Text → String) (guestSAC : Bool) (nics : List NIC) :
    ConsoleCode StaticResult := do
  if !(guestSAC && nics.any fun nic => isStaticNIC nic.config) then return .skipped
  else
    match ← dial with
    | some err => return .failed ("sac dial: " ++ err)
    | none =>
      match ← sacEnumerateNICs quote nics.length sacEnumRetries [] with
      | .error err => return .failed err
      | .ok netNums => setNICs quote netNums 0 nics

/-- `none` if it panics. -/
def runWindowsSAC (quote : Text → String) (guestSAC : Bool) (nics : List NIC) :
    ConsoleCode (Option Bool) := do
  match ← applyWindowsStaticIP quote guestSAC nics with
  | .panicked => return none
  | .failed err =>
    let _ ← console (.markFailed err)
    return some false
  | .skipped | .applied => return some true

/-! ### The console -/

/-- `sp` stands for blanks in the output of a listing. -/
def Blanks (sp : Text) : Prop := sp ≠ [] ∧ ∀ c ∈ sp, isSpace c = true

/-- A text without blanks. -/
structure IsWord (w : Text) : Prop where
  ne_nil : w ≠ []
  solid : ∀ c ∈ w, isSpace c = false

/-- `digits` is a way to write `n`, which fits an `int`. -/
structure Writes (n : ℕ) (digits : Text) : Prop where
  ne_nil : digits ≠ []
  digit : ∀ c ∈ digits, c.isDigit = true
  value : atoi digits = n

/-- A listing of adapters.  There is a line for each address, and nothing else in it has the letter
every line begins with. -/
inductive Lists : List (ℕ × Text) → Text → Prop where
  | rest {t : Text} (h : 'N' ∉ t) : Lists [] t
  | line {n : ℕ} {ip noise sp digits sp' t : Text} {c : Char} {lines : List (ℕ × Text)}
      (hnoise : 'N' ∉ noise) (hsp : Blanks sp) (hdigits : Writes n digits) (hsp' : Blanks sp')
      (hip : IsWord ip) (hc : isSpace c = true) (h : Lists lines t) :
      Lists ((n, ip) :: lines)
        (noise ++ (['N', 'e', 't', ':'] ++ (sp ++ (digits ++ ([','] ++ (sp' ++ (['I', 'p', '='] ++
          (ip ++ c :: t))))))))

structure Given where
  ip : Text
  mask : Text
  gateway : Text
deriving DecidableEq, Repr

/-- What the guest makes of the words of a line that sets an address. -/
def guestCommand : List Text → Option (ℕ × Given)
  | [verb, num, ip, mask, gateway] =>
    if verb = ['i'] ∧ num ≠ [] ∧ num.all Char.isDigit then
      some (Nat.ofDigitChars 10 num 0, ⟨ip, mask, gateway⟩)
    else none
  | _ => none

structure Console where
  /-- numbers and addresses of the adapters -/
  lines : List (ℕ × Text)
  /-- what an adapter was given last -/
  given : ℕ → Option Given
  /-- output that nobody read yet -/
  pending : Text
  marks : List String

namespace Console

/-- An adapter of `only` that shows the address it was given keeps it. -/
def Holds (only : ℕ → Prop) (s s' : Console) : Prop :=
  ∀ n g, only n → s.given n = some g → (n, g.ip) ∈ s.lines → (n, g.ip) ∈ s'.lines

/-- The guest may go on with anything else: other adapters appear or change. -/
structure Keeps (s s' : Console) : Prop where
  given : s'.given = s.given
  marks : s'.marks = s.marks
  holds : s.Holds (fun _ => True) s'

structure Gave (n : ℕ) (g : Given) (s s' : Console) : Prop where
  given : s'.given = Function.update s.given n (some g)
  marks : s'.marks = s.marks
  holds : s.Holds (fun m => m ≠ n) s'

/-- The guest has a line of text: it sets an address, or not yet, or it lists. -/
def Takes (s : Console) (text : Text) (s' : Console) : Prop :=
  match guestCommand (words isSpace text) with
  | some (n, g) => s.Gave n g s'
  | none => s.Keeps s'

/-- It answers with a prompt at the end. -/
def Responds (s : Console) (text : Text) (s' : Console) : Prop :=
  ∃ response, '>' ∉ response ∧ s'.pending = s.pending ++ (response ++ sacPrompt) ∧
    (words isSpace text = [['i']] → Lists s'.lines (response ++ sacPrompt))

end Console

/-- The data of the reads. -/
def received : List ReadEvent → Text
  | [] => []
  | .read data _ :: rest => data ++ received rest
  | _ :: rest => received rest

/-- What the calls can do.  A write that fails may have reached the guest. -/
def answers : Proc.Answers Console ConsoleCall ConsoleAns
  | s, .connect, _, s' => s.Keeps s'
  | s, .drain, _, s' => s.Keeps s' ∧ s'.pending = []
  | s, .write text, err, s' =>
    match err with
    | some _ => s.Takes text s' ∨ s.Keeps s'
    | none => s.Takes text s' ∧ s.Responds text s'
  | s, .reads probe, events, s' =>
    s.Keeps s' ∧ (probe = [] → received events ++ s'.pending = s.pending)
  | s, .sleep, _, s' => s.Keeps s'
  | s, .markFailed message, _, s' =>
    s' = { s with marks := s.marks ++ [message] }

/-! ### Reading a listing -/

theorem isSpace_of_isDigit {c : Char} (h : c.isDigit = true) : isSpace c = false := by
  rw [Bool.eq_false_iff]
  intro hsp
  simp only [isSpace, Bool.or_eq_true, beq_iff_eq] at hsp
  rcases hsp with (((rfl | rfl) | rfl) | rfl) | rfl <;> revert h <;> decide

theorem head_all_not {p : Char → Bool} {w t : Text} (hw : w ≠ []) (hp : ∀ c ∈ w, p c = false) :
    ((w ++ t).head?.all fun c => !p c) = true := by
  cases w with
  | nil => exact absurd rfl hw
  | cons c w => simp [hp c (by simp)]

theorem netLineRe_line {n : ℕ} {ip sp digits sp' t : Text} {c : Char} (hsp : Blanks sp)
    (hdigits : Writes n digits) (hsp' : Blanks sp') (hip : IsWord ip) (hc : isSpace c = true) :
    netLineRe (['N', 'e', 't', ':'] ++ (sp ++ (digits ++ ([','] ++ (sp' ++ (['I', 'p', '='] ++
      (ip ++ c :: t))))))) = some (⟨digits, ip⟩, c :: t) := by
  have hsolid : ∀ c ∈ digits, isSpace c = false := fun c hc => isSpace_of_isDigit (hdigits.digit c hc)
  have h₁ : ∀ r, many1 isSpace (sp ++ (digits ++ r)) = some (sp, digits ++ r) := fun r =>
    many1_append hsp.1 hsp.2 (head_all_not hdigits.ne_nil hsolid)
  have h₂ : many1 Char.isDigit (digits ++ ([','] ++ (sp' ++ (['I', 'p', '='] ++ (ip ++ c :: t))))) =
      some (digits, [','] ++ (sp' ++ (['I', 'p', '='] ++ (ip ++ c :: t)))) :=
    many1_append hdigits.ne_nil hdigits.digit (by simp)
  have h₃ : many1 isSpace (sp' ++ (['I', 'p', '='] ++ (ip ++ c :: t))) =
      some (sp', ['I', 'p', '='] ++ (ip ++ c :: t)) :=
    many1_append hsp'.1 hsp'.2 (by simp; decide)
  have h₄ : many1 (fun c => !isSpace c) (ip ++ c :: t) = some (ip, c :: t) :=
    many1_append hip.ne_nil (fun c hc => by simp [hip.solid c hc]) (by simp [hc])
  simp only [netLineRe, lit_append, h₁, h₂, h₃, h₄, Option.bind_eq_bind, Option.bind_some, Option.pure_def]

theorem netLineRe_other {c : Char} (h : c ≠ 'N') (t : Text) : netLineRe (c :: t) = none := by
  rw [netLineRe, lit_ne _ _ h.symm]
  rfl

theorem findAll_noise {u : Text} (h : 'N' ∉ u) (t : Text) (fuel : ℕ) :
    findAll netLineRe (u.length + fuel) (u ++ t) = findAll netLineRe fuel t :=
  findAll_skip (fun _ hc => netLineRe_other fun he => h (he ▸ hc)) fuel

theorem findAll_lists {lines : List (ℕ × Text)} {t : Text} (h : Lists lines t) {fuel : ℕ}
    (hfuel : t.length ≤ fuel) :
    (findAll netLineRe fuel t).map (fun m => (atoi m.num, m.ip)) = lines := by
  induction h generalizing fuel with
  | @rest t h =>
    obtain ⟨k, rfl⟩ := Nat.exists_eq_add_of_le hfuel
    have hskip := findAll_noise h [] k
    rw [List.append_nil, findAll_nil] at hskip
    rw [hskip]
    rfl
  | @line n ip noise sp digits sp' t c lines hnoise hsp hdigits hsp' hip hc _ ih =>
    -- one unit of fuel for the line and one for the blank after it
    have hlen : noise.length + (t.length + 2) ≤ fuel := by
      simp only [List.length_append, List.length_cons] at hfuel
      omega
    obtain ⟨k, rfl⟩ := Nat.exists_eq_add_of_le hlen
    have hblank : 'N' ∉ [c] := by
      intro hN
      rw [List.mem_singleton] at hN
      rw [← hN] at hc
      revert hc
      decide
    have hsplit : noise.length + (t.length + 2) + k = noise.length + ((t.length + k + 1) + 1) := by omega
    have hrest : findAll netLineRe (t.length + k + 1) (c :: t) = findAll netLineRe (t.length + k) t := by
      have hskip := findAll_noise hblank t (t.length + k)
      rwa [List.length_singleton, Nat.add_comm 1, List.singleton_append] at hskip
    rw [hsplit, findAll_noise hnoise,
      findAll_hit (netLineRe_line hsp hdigits hsp' hip hc) (by simp), hrest, List.map_cons,
      ih (by omega), hdigits.value]

/-- A listing shows the adapters, and nothing else. -/
theorem findAll_listing {lines : List (ℕ × Text)} {t : Text} (h : Lists lines t) :
    (findAllStringSubmatch t).map (fun m => (atoi m.num, m.ip)) = lines :=
  findAll_lists h (Nat.le_refl _)

theorem netHasIP_iff {lines : List (ℕ × Text)} {t : Text} (h : Lists lines t) (n : ℕ) (ip : Text) :
    netHasIP t n ip = true ↔ (n, ip) ∈ lines := by
  rw [← findAll_listing h]
  simp [netHasIP, List.any_eq_true]

theorem distinctNums_nodup (seen : List ℕ) (ms : List NetMatch) :
    (distinctNums seen ms).Nodup ∧ ∀ n ∈ distinctNums seen ms, n ∉ seen := by
  induction ms generalizing seen with
  | nil => simp [distinctNums]
  | cons m ms ih =>
    by_cases hm : atoi m.num ∈ seen
    · simpa [distinctNums, hm] using ih seen
    · obtain ⟨hnodup, hfresh⟩ := ih (atoi m.num :: seen)
      simp only [distinctNums, hm, if_false]
      refine ⟨List.nodup_cons.mpr ⟨fun hmem => hfresh _ hmem (by simp), hnodup⟩, ?_⟩
      intro n hn
      rcases List.mem_cons.mp hn with rfl | hn
      · exact hm
      · exact fun hs => hfresh n hn (List.mem_cons_of_mem _ hs)

theorem mem_distinctNums (seen : List ℕ) (ms : List NetMatch) (n : ℕ) :
    n ∈ distinctNums seen ms ↔ n ∉ seen ∧ ∃ m ∈ ms, atoi m.num = n := by
  induction ms generalizing seen with
  | nil => simp [distinctNums]
  | cons m ms ih =>
    by_cases hm : atoi m.num ∈ seen
    · simp only [distinctNums, hm, if_true, ih, List.mem_cons]
      grind
    · simp only [distinctNums, hm, if_false, List.mem_cons, ih]
      grind

theorem parseNetEntries_nodup (t : Text) : (parseNetEntries t).Nodup :=
  (distinctNums_nodup [] _).1

theorem mem_parseNetEntries {lines : List (ℕ × Text)} {t : Text} (h : Lists lines t) (n : ℕ) :
    n ∈ parseNetEntries t ↔ ∃ ip, (n, ip) ∈ lines := by
  rw [parseNetEntries, mem_distinctNums, ← findAll_listing h]
  simp

/-! ### Reading up to the prompt -/

/-- However the output is cut into reads, what is returned is a beginning of it with a prompt. -/
theorem readUntilPrompt_beginning {sb out : Text} {events : List ReadEvent}
    (h : readUntilPrompt sb events = .ok out) :
    occurs sacPrompt out = true ∧ ∃ t, out ++ t = sb ++ received events := by
  induction events generalizing sb with
  | nil => simp [readUntilPrompt] at h
  | cons e events ih =>
    cases e with
    | canceled err => simp [readUntilPrompt] at h
    | expired => simp [readUntilPrompt] at h
    | probeFailed err => simp [readUntilPrompt] at h
    | read data err =>
      by_cases hprompt : (!data.isEmpty && occurs sacPrompt (sb ++ data)) = true
      · simp only [readUntilPrompt, hprompt, if_true, Except.ok.injEq] at h
        rw [← h]
        exact ⟨(Bool.and_eq_true_iff.mp hprompt).2, received events, by simp [received]⟩
      · have hnext : readUntilPrompt (sb ++ data) events = .ok out := by
          rw [Bool.not_eq_true] at hprompt
          simp only [readUntilPrompt, hprompt, Bool.false_eq_true, if_false] at h
          cases err with
          | none => exact h
          | some err =>
            cases err with
            | timeout => exact h
            | other err => simp at h
        obtain ⟨hocc, t, ht⟩ := ih hnext
        exact ⟨hocc, t, by simpa [received] using ht⟩

/-- The answer to a command is read to its end. -/
theorem readUntilPrompt_response {response out rest : Text} {events : List ReadEvent}
    (hresponse : '>' ∉ response) (hrest : received events ++ rest = response ++ sacPrompt)
    (h : readUntilPrompt [] events = .ok out) : out = response ++ sacPrompt := by
  obtain ⟨hocc, t, ht⟩ := readUntilPrompt_beginning h
  rw [List.nil_append] at ht
  have hwhole : out ++ (t ++ rest) = response ++ (['S', 'A', 'C'] ++ ['>']) := by
    rw [← List.append_assoc, ht]
    exact hrest
  have hnil : t ++ rest = [] := eq_of_occurs_of_prefix hresponse (by decide) hwhole hocc
  rw [hnil, List.append_nil] at hwhole
  exact hwhole

/-! ### The guest reads a command -/

/-- What a static NIC has to be given: the words of a command are separated by blanks. -/
structure Network.WellWritten (net : Network) : Prop where
  ip : IsWord net.ip.toList
  gateway : IsWord net.gateway.toList

def Network.given (net : Network) : Given :=
  ⟨net.ip.toList, prefixToSubnet net.prefixLen, net.gateway.toList⟩

theorem itoa_isDigit {n : ℕ} {c : Char} (h : c ∈ itoa n) : c.isDigit = true :=
  Nat.isDigit_of_mem_toDigits (by decide) (by decide) h

theorem isWord_of_all {w : Text} (h : (!w.isEmpty && w.all fun c => !isSpace c) = true) :
    IsWord w := by
  obtain ⟨hne, hall⟩ := Bool.and_eq_true_iff.mp h
  exact ⟨by simpa using hne, fun c hc => by simpa using List.all_eq_true.mp hall c hc⟩

theorem itoa_isWord (n : ℕ) : IsWord (itoa n) where
  ne_nil := Nat.toDigits_ne_nil
  solid _ hc := isSpace_of_isDigit (itoa_isDigit hc)

theorem isWord_append_dot {u w : Text} (hu : IsWord u) (hw : IsWord w) : IsWord (u ++ ['.'] ++ w) where
  ne_nil := by simp
  solid c hc := by
    simp only [List.append_assoc, List.mem_append, List.mem_singleton] at hc
    rcases hc with hc | rfl | hc
    · exact hu.solid c hc
    · decide
    · exact hw.solid c hc

theorem dotted_isWord (mask : BitVec 32) : IsWord (dotted mask) :=
  isWord_append_dot (isWord_append_dot (isWord_append_dot (itoa_isWord _) (itoa_isWord _))
    (itoa_isWord _)) (itoa_isWord _)

theorem prefixToSubnet_isWord (bits : ℤ) : IsWord (prefixToSubnet bits) := by
  unfold prefixToSubnet
  split
  · exact isWord_of_all (by decide)
  · exact dotted_isWord _

/-- The mask has the bits of the prefix set, counted from the top, and 24 of them where the
prefix is out of range. -/
theorem prefixToSubnet_mask (bits : ℤ) :
    ∃ mask : BitVec 32, prefixToSubnet bits = dotted mask ∧
      ∀ i < 32, mask.getMsbD i = decide ((i : ℤ) < if bits ≤ 0 ∨ 32 < bits then 24 else bits) := by
  have hmask : ∀ n, n ≤ 32 → ∀ i < 32, (subnetMask n).getMsbD i = decide (i < n) := by
    intro n hn i hi
    rw [subnetMask, BitVec.getMsbD_shiftLeft, BitVec.getMsbD_allOnes]
    exact decide_eq_decide.mpr (by omega)
  by_cases hout : bits ≤ 0 ∨ 32 < bits
  · refine ⟨subnetMask 24, ?_, fun i hi => ?_⟩
    · rw [prefixToSubnet, if_pos hout]
      decide
    · rw [hmask 24 (by decide) i hi, if_pos hout]
      simp
  · refine ⟨subnetMask bits.toNat, by rw [prefixToSubnet, if_neg hout], fun i hi => ?_⟩
    rw [hmask bits.toNat (by omega) i hi, if_neg hout]
    simp

theorem words_list : words isSpace ([' '].intercalate [['i']] ++ ['\r', '\n']) = [['i']] := by
  decide

theorem words_setCommand {net : Network} (h : net.WellWritten) (n : ℕ) :
    words isSpace ([' '].intercalate (setCommand n net) ++ ['\r', '\n']) = setCommand n net := by
  have htext : [' '].intercalate (setCommand n net) ++ ['\r', '\n'] =
      ['i'] ++ ' ' :: (itoa n ++ ' ' :: (net.ip.toList ++ ' ' :: (prefixToSubnet net.prefixLen ++
        ' ' :: (net.gateway.toList ++ '\r' :: ['\n'])))) := by
    simp [setCommand, List.intercalate]
  have hverb : IsWord ['i'] := isWord_of_all (by decide)
  have hmask := prefixToSubnet_isWord net.prefixLen
  rw [htext, words_cons hverb.ne_nil hverb.solid rfl, words_cons (itoa_isWord n).ne_nil (itoa_isWord n).solid rfl,
    words_cons h.ip.ne_nil h.ip.solid rfl, words_cons hmask.ne_nil hmask.solid rfl,
    words_cons h.gateway.ne_nil h.gateway.solid rfl, words_sep rfl, words_nil]
  rfl

theorem guestCommand_setCommand (n : ℕ) (net : Network) :
    guestCommand (setCommand n net) = some (n, net.given) := by
  have hnum : (itoa n).all Char.isDigit = true := List.all_eq_true.mpr fun c hc => itoa_isDigit hc
  have hvalue : Nat.ofDigitChars 10 (itoa n) 0 = n := Nat.ofDigitChars_ten_toDigits
  simp [setCommand, guestCommand, (itoa_isWord n).ne_nil, hnum, hvalue, Network.given]

/-! ### Commands -/

namespace Console
variable {s s₁ s₂ : Console} {n : ℕ} {g : Given}

theorem Keeps.refl (s : Console) : s.Keeps s := ⟨rfl, rfl, fun _ _ _ _ h => h⟩

theorem Keeps.trans (h : s.Keeps s₁) (h' : s₁.Keeps s₂) : s.Keeps s₂ where
  given := h'.given.trans h.given
  marks := h'.marks.trans h.marks
  holds m g _ hg hl := h'.holds m g trivial (h.given ▸ hg) (h.holds m g trivial hg hl)

theorem Keeps.gave (h : s.Keeps s₁) (h' : s₁.Gave n g s₂) : s.Gave n g s₂ where
  given := by rw [h'.given, h.given]
  marks := h'.marks.trans h.marks
  holds m g hm hg hl := h'.holds m g hm (h.given ▸ hg) (h.holds m g trivial hg hl)

theorem Gave.keeps (h : s.Gave n g s₁) (h' : s₁.Keeps s₂) : s.Gave n g s₂ where
  given := h'.given.trans h.given
  marks := h'.marks.trans h.marks
  holds m g' hm hg hl := by
    refine h'.holds m g' trivial ?_ (h.holds m g' hm hg hl)
    rw [h.given, Function.update_of_ne hm, hg]

theorem Gave.again (h : s.Gave n g s₁) (h' : s₁.Gave n g s₂) : s.Gave n g s₂ where
  given := by rw [h'.given, h.given, Function.update_idem]
  marks := h'.marks.trans h.marks
  holds m g' hm hg hl := by
    refine h'.holds m g' hm ?_ (h.holds m g' hm hg hl)
    rw [h.given, Function.update_of_ne hm, hg]

theorem Gave.given_self (h : s.Gave n g s₁) : s₁.given n = some g := by
  rw [h.given, Function.update_self]

end Console

section Commands
variable {quote : Text → String} {s : Console}

theorem sacCommand_wp (cmd : Text) :
    (sacCommand quote cmd).wp answers (fun s' r => ∃ s₀ s₁, s.Keeps s₀ ∧ s₁.Keeps s' ∧
      (s₀.Takes (cmd ++ ['\r', '\n']) s₁ ∨ s₀.Keeps s₁) ∧
      ∀ out, r = .ok out → s₀.Takes (cmd ++ ['\r', '\n']) s₁ ∧
        (words isSpace (cmd ++ ['\r', '\n']) = [['i']] → Lists s₁.lines out)) s := by
  refine Proc.wp_ask_bind.mpr fun _ s₀ ⟨hdrain, hempty⟩ => ?_
  refine Proc.wp_ask_bind.mpr fun err s₁ hwrite => ?_
  cases err with
  | some err => exact ⟨s₀, s₁, hdrain, Console.Keeps.refl s₁, hwrite, nofun⟩
  | none =>
    obtain ⟨htakes, response, hresponse, hpending, hlists⟩ := hwrite
    rw [hempty, List.nil_append] at hpending
    refine Proc.wp_ask_bind.mpr fun events s₂ ⟨hkeeps, hread⟩ => ?_
    cases hout : readUntilPrompt [] events with
    | error err => exact ⟨s₀, s₁, hdrain, hkeeps, .inl htakes, nofun⟩
    | ok out =>
      refine ⟨s₀, s₁, hdrain, hkeeps, .inl htakes, fun out' heq => ⟨htakes, fun hi => ?_⟩⟩
      cases heq
      rw [readUntilPrompt_response hresponse ((hread rfl).trans hpending) hout]
      exact hlists hi

/-- A listing that comes back is one of the adapters as they were when the guest answered. -/
theorem list_wp :
    (run quote [['i']]).wp answers (fun s' r => ∃ s₁, s.Keeps s₁ ∧ s₁.Keeps s' ∧
      ∀ out, r = .ok out → Lists s₁.lines out) s := by
  refine Proc.wp_mono ?_ (sacCommand_wp ([' '].intercalate [['i']]))
  rintro s' r ⟨s₀, s₁, h₀, h₁, htakes, hok⟩
  have hkeeps : s₀.Keeps s₁ := by
    rcases htakes with htakes | hkeeps
    · simpa only [Console.Takes, words_list, guestCommand] using htakes
    · exact hkeeps
  exact ⟨s₁, h₀.trans hkeeps, h₁, fun out hout => (hok out hout).2 words_list⟩

theorem set_wp {net : Network} (hnet : net.WellWritten) (n : ℕ) :
    (run quote (setCommand n net)).wp answers (fun s' r => s'.marks = s.marks ∧
      ∀ out, r = .ok out → s.Gave n net.given s') s := by
  have hcommand : ∀ s₀ s₁ : Console,
      s₀.Takes ([' '].intercalate (setCommand n net) ++ ['\r', '\n']) s₁ ↔ s₀.Gave n net.given s₁ := by
    intro s₀ s₁
    rw [Console.Takes, words_setCommand hnet, guestCommand_setCommand]
  refine Proc.wp_mono ?_ (sacCommand_wp ([' '].intercalate (setCommand n net)))
  rintro s' r ⟨s₀, s₁, h₀, h₁, htakes, hok⟩
  constructor
  · rcases htakes with htakes | hkeeps
    · exact ((h₀.gave ((hcommand s₀ s₁).mp htakes)).keeps h₁).marks
    · exact ((h₀.trans hkeeps).trans h₁).marks
  · intro out hout
    exact (h₀.gave ((hcommand s₀ s₁).mp (hok out hout).1)).keeps h₁

end Commands

/-! ### The whole pass -/

/-- The static ones among the first `k` NICs show the address they were given, at the adapter the
enumeration has for them. -/
def Shown (nics : List NIC) (netNums : List ℕ) (k : ℕ) (s : Console) : Prop :=
  ∀ i nic net, i < k → nics[i]? = some nic → nic.network = some net → isStaticNIC nic.config = true →
    ∃ n, netNums[i]? = some n ∧ s.given n = some net.given ∧ (n, net.ip.toList) ∈ s.lines

/-- Every static NIC has an address and a gateway that are words. -/
def AllWellWritten (nics : List NIC) : Prop :=
  ∀ nic ∈ nics, ∀ net, nic.network = some net → isStaticNIC nic.config = true → net.WellWritten

section Pass
variable {quote : Text → String} {s s' : Console} {nics : List NIC} {netNums : List ℕ} {k n : ℕ}

theorem Shown.keeps (h : Shown nics netNums k s) (hs : s.Keeps s') : Shown nics netNums k s' := by
  intro i nic net hi hnic hnet hstatic
  obtain ⟨m, hm, hgiven, hline⟩ := h i nic net hi hnic hnet hstatic
  exact ⟨m, hm, hs.given ▸ hgiven, hs.holds m net.given trivial hgiven hline⟩

/-- Giving the next adapter its address does not disturb the ones before: their numbers differ. -/
theorem Shown.gave {g : Given} (h : Shown nics netNums k s) (hnodup : netNums.Nodup)
    (hn : netNums[k]? = some n) (hs : s.Gave n g s') : Shown nics netNums k s' := by
  intro i nic net hi hnic hnet hstatic
  obtain ⟨m, hm, hgiven, hline⟩ := h i nic net hi hnic hnet hstatic
  have hne : m ≠ n := by
    intro heq
    have hik : i = k := by
      obtain ⟨hlt, -⟩ := List.getElem?_eq_some_iff.mp hm
      exact (List.getElem?_inj hlt hnodup).mp (by rw [hm, hn, heq])
    omega
  refine ⟨m, hm, ?_, hs.holds m net.given hne hgiven hline⟩
  rw [hs.given, Function.update_of_ne hne, hgiven]

theorem Shown.succ (h : Shown nics netNums k s)
    (hk : ∀ nic net, nics[k]? = some nic → nic.network = some net → isStaticNIC nic.config = true →
      ∃ n, netNums[k]? = some n ∧ s.given n = some net.given ∧ (n, net.ip.toList) ∈ s.lines) :
    Shown nics netNums (k + 1) s := by
  intro i nic net hi
  rcases Nat.lt_succ_iff_lt_or_eq.mp hi with hlt | rfl
  · exact h i nic net hlt
  · exact hk nic net

/-- One attempt at the enumeration, and what is done with a listing that is not complete. -/
theorem enumerate_attempt_wp {wantNICs : ℕ} {post : Console → Except String (List ℕ) → Prop}
    (more : List ℕ → ConsoleCode (Except String (List ℕ)))
    (hmore : ∀ s₂ nums, s.Keeps s₂ → (more nums).wp answers post s₂)
    (hdone : ∀ s₂ nums, s.Keeps s₂ → wantNICs ≤ nums.length → nums.Nodup → post s₂ (.ok nums)) :
    (run quote [['i']] >>= fun r =>
      let found := match r with
        | .error _ => (netNums, false)
        | .ok out => (parseNetEntries out, decide (wantNICs ≤ (parseNetEntries out).length))
      if found.2 then return .ok found.1 else more found.1).wp answers post s := by
  refine Proc.wp_seq list_wp fun s₂ r ⟨s₁, h₁, h₂, _⟩ => ?_
  have hkeeps : s.Keeps s₂ := h₁.trans h₂
  cases r with
  | error err => exact hmore s₂ netNums hkeeps
  | ok out =>
    by_cases hlen : wantNICs ≤ (parseNetEntries out).length
    · simp only [hlen, decide_true, if_true, Proc.wp_pure]
      exact hdone s₂ (parseNetEntries out) hkeeps hlen (parseNetEntries_nodup out)
    · simp only [hlen, decide_false, Bool.false_eq_true, if_false]
      exact hmore s₂ (parseNetEntries out) hkeeps

theorem sacEnumerateNICs_wp (wantNICs attempts : ℕ) (netNums : List ℕ) :
    (sacEnumerateNICs quote wantNICs (attempts + 1) netNums).wp answers (fun s' r => s.Keeps s' ∧
      ∀ nums, r = .ok nums → wantNICs ≤ nums.length ∧ nums.Nodup) s := by
  induction attempts generalizing s netNums with
  | zero =>
    refine enumerate_attempt_wp (fun nums => pure (.error ("sac enum exhausted: found " ++
      toString nums.length ++ " need " ++ toString wantNICs))) (fun s₂ nums hk => ⟨hk, nofun⟩) ?_
    intro s₂ nums hk hlen hnodup
    exact ⟨hk, fun nums' heq => by cases heq; exact ⟨hlen, hnodup⟩⟩
  | succ attempts ih =>
    refine enumerate_attempt_wp (fun nums => console .sleep >>= fun
      | some err => pure (.error err)
      | none => sacEnumerateNICs quote wantNICs (attempts + 1) nums) (fun s₂ nums hk => ?_) ?_
    · refine Proc.wp_ask_bind.mpr fun err s₃ h₃ => ?_
      cases err with
      | some err => exact ⟨hk.trans h₃, nofun⟩
      | none => exact Proc.wp_mono (fun s' r ⟨h', hok⟩ => ⟨(hk.trans h₃).trans h', hok⟩) (ih nums)
    · intro s₂ nums hk hlen hnodup
      exact ⟨hk, fun nums' heq => by cases heq; exact ⟨hlen, hnodup⟩⟩

/-- One attempt at setting an address, and what is done if it is not shown. -/
theorem set_attempt_wp {net : Network} (hnet : net.WellWritten)
    {post : Console → Option String → Prop} (more : ConsoleCode (Option String))
    (hfail : ∀ s₂ err, s₂.marks = s.marks → post s₂ (some err))
    (hmore : ∀ s₂, s.Gave n net.given s₂ → more.wp answers post s₂)
    (hdone : ∀ s₂, s.Gave n net.given s₂ → (n, net.ip.toList) ∈ s₂.lines → post s₂ none) :
    (run quote (setCommand n net) >>= fun
      | .error err => return some ("sac set ip net " ++ toString n ++ ": " ++ err)
      | .ok _ => run quote [['i']] >>= fun r =>
        let shown := match r with
          | .error _ => false
          | .ok out => netHasIP out n net.ip.toList
        if shown then return none else more).wp answers post s := by
  refine Proc.wp_seq (set_wp hnet n) fun s₁ r ⟨hmarks, hgave⟩ => ?_
  cases r with
  | error err => exact hfail s₁ _ hmarks
  | ok out =>
    have h₁ : s.Gave n net.given s₁ := hgave out rfl
    refine Proc.wp_seq list_wp fun s₃ r ⟨s₂, h₂, h₃, hlists⟩ => ?_
    have h₃' : s.Gave n net.given s₃ := (h₁.keeps h₂).keeps h₃
    cases r with
    | error err => exact hmore s₃ h₃'
    | ok out =>
      by_cases hshown : netHasIP out n net.ip.toList = true
      · simp only [hshown, if_true, Proc.wp_pure]
        have hline : (n, net.given.ip) ∈ s₂.lines := (netHasIP_iff (hlists out rfl) n _).mp hshown
        exact hdone s₃ h₃' (h₃.holds n net.given trivial (h₁.keeps h₂).given_self hline)
      · simp only [hshown, Bool.false_eq_true, if_false]
        exact hmore s₃ h₃'

theorem sacSetNICIP_wp {net : Network} (hnet : net.WellWritten) (attempts : ℕ) :
    (sacSetNICIP quote n net (attempts + 1)).wp answers (fun s' r => s'.marks = s.marks ∧
      (r = none → s.Gave n net.given s' ∧ (n, net.ip.toList) ∈ s'.lines)) s := by
  induction attempts generalizing s with
  | zero =>
    refine set_attempt_wp hnet _ (fun s₂ err h => ⟨h, nofun⟩) (fun s₂ h => ⟨h.marks, nofun⟩) ?_
    exact fun s₂ h hline => ⟨h.marks, fun _ => ⟨h, hline⟩⟩
  | succ attempts ih =>
    refine set_attempt_wp hnet _ (fun s₂ err h => ⟨h, nofun⟩) (fun s₂ h => ?_) ?_
    · refine Proc.wp_ask_bind.mpr fun err s₃ h₃ => ?_
      have hgave := h.keeps h₃
      cases err with
      | some err => exact ⟨hgave.marks, nofun⟩
      | none =>
        refine Proc.wp_mono (fun s' r ⟨hmarks, hok⟩ => ⟨hmarks.trans hgave.marks, fun hr => ?_⟩) ih
        exact ⟨hgave.again (hok hr).1, (hok hr).2⟩
    · exact fun s₂ h hline => ⟨h.marks, fun _ => ⟨h, hline⟩⟩

theorem setNICs_wp (hnodup : netNums.Nodup) (hlen : nics.length ≤ netNums.length)
    (hwell : AllWellWritten nics) {rest : List NIC} (hrest : nics.drop k = rest)
    (h : Shown nics netNums k s) :
    (setNICs quote netNums k rest).wp answers (fun s' r => s'.marks = s.marks ∧ r ≠ .panicked ∧
      r ≠ .skipped ∧ (r = .applied → Shown nics netNums nics.length s')) s := by
  induction rest generalizing k s with
  | nil =>
    have hk : nics.length ≤ k := List.drop_eq_nil_iff.mp hrest
    refine ⟨rfl, nofun, nofun, fun _ i nic net hi => h i nic net (by omega)⟩
  | cons nic rest ih =>
    have hnic : nics[k]? = some nic := by
      rw [← List.head?_drop, hrest]
      rfl
    have hrest' : nics.drop (k + 1) = rest := by
      rw [← List.tail_drop, hrest]
      rfl
    unfold setNICs
    cases hnet : nic.network with
    | none =>
      refine ih hrest' (h.succ fun nic' net hnic' hnet' _ => ?_)
      rw [hnic, Option.some_inj] at hnic'
      rw [← hnic', hnet] at hnet'
      exact absurd hnet' nofun
    | some net =>
      by_cases hstatic : isStaticNIC nic.config = true
      · obtain ⟨hk, hget⟩ := List.getElem?_eq_some_iff.mp hnic
        obtain ⟨netNum, hnum⟩ : ∃ m, netNums[k]? = some m :=
          ⟨_, List.getElem?_eq_getElem (Nat.lt_of_lt_of_le hk hlen)⟩
        have hnetWell : net.WellWritten := hwell nic (List.mem_of_getElem? hnic) net hnet hstatic
        simp only [hstatic, if_true, hnum]
        refine Proc.wp_seq (sacSetNICIP_wp hnetWell 9) fun s₁ r ⟨hmarks, hok⟩ => ?_
        cases r with
        | some err => exact ⟨hmarks, nofun, nofun, nofun⟩
        | none =>
          obtain ⟨hgave, hline⟩ := hok rfl
          have hnext : Shown nics netNums (k + 1) s₁ := by
            refine (h.gave hnodup hnum hgave).succ fun nic' net' hnic' hnet' _ => ?_
            rw [hnic, Option.some_inj] at hnic'
            rw [← hnic', hnet, Option.some_inj] at hnet'
            rw [← hnet']
            exact ⟨netNum, hnum, hgave.given_self, hline⟩
          exact Proc.wp_mono (fun s' r ⟨hm, hr⟩ => ⟨hm.trans hmarks, hr⟩) (ih hrest' hnext)
      · simp only [hstatic, Bool.false_eq_true, if_false]
        refine ih hrest' (h.succ fun nic' net' hnic' _ hstatic' => ?_)
        rw [hnic, Option.some_inj] at hnic'
        exact absurd (hnic' ▸ hstatic') hstatic

theorem dial_wp : dial.wp answers (fun s' _ => s.Keeps s') s := by
  refine Proc.wp_ask_bind.mpr fun err s₁ h₁ => ?_
  cases err with
  | some err => exact h₁
  | none =>
    refine Proc.wp_ask_bind.mpr fun events s₂ ⟨h₂, _⟩ => ?_
    cases readUntilPrompt [] events with
    | error err => exact h₁.trans h₂
    | ok out => exact h₁.trans h₂

theorem applyWindowsStaticIP_wp (guestSAC : Bool) (hwell : AllWellWritten nics) :
    (applyWindowsStaticIP quote guestSAC nics).wp answers (fun s' r => s'.marks = s.marks ∧
      r ≠ .panicked ∧ (r = .skipped → guestSAC = false ∨ ∀ nic ∈ nics, isStaticNIC nic.config = false) ∧
      (r = .applied → ∃ netNums : List ℕ, netNums.Nodup ∧ Shown nics netNums nics.length s')) s := by
  unfold applyWindowsStaticIP
  split
  · rename_i hskip
    refine ⟨rfl, nofun, fun _ => ?_, nofun⟩
    simpa [Bool.and_eq_false_iff] using hskip
  · refine Proc.wp_seq dial_wp fun s₁ err h₁ => ?_
    cases err with
    | some err => exact ⟨h₁.marks, nofun, nofun, nofun⟩
    | none =>
      refine Proc.wp_seq (sacEnumerateNICs_wp nics.length 59 []) fun s₂ r ⟨h₂, hok⟩ => ?_
      cases r with
      | error err => exact ⟨(h₁.trans h₂).marks, nofun, nofun, nofun⟩
      | ok netNums =>
        obtain ⟨hlen, hnodup⟩ := hok netNums rfl
        have hnone : Shown nics netNums 0 s₂ := fun i nic net hi => absurd hi (Nat.not_lt_zero i)
        refine Proc.wp_mono ?_ (setNICs_wp hnodup hlen hwell (List.drop_zero) hnone)
        rintro s' r ⟨hmarks, hpanic, hskip, happlied⟩
        exact ⟨hmarks.trans (h₁.trans h₂).marks, hpanic, fun hr => absurd hr hskip,
          fun hr => ⟨netNums, hnodup, happlied hr⟩⟩

/-- Every static NIC has an adapter of its own that shows its address, and was given it with the
mask of its prefix and its gateway. -/
def Configured (nics : List NIC) (s : Console) : Prop :=
  ∃ netNums : List ℕ, netNums.Nodup ∧
    ∀ (i : ℕ) (nic : NIC) (net : Network), nics[i]? = some nic → nic.network = some net →
      isStaticNIC nic.config = true → ∃ n, netNums[i]? = some n ∧ (n, net.ip.toList) ∈ s.lines ∧
        ∃ mask : BitVec 32, s.given n = some ⟨net.ip.toList, dotted mask, net.gateway.toList⟩ ∧
          ∀ j < 32, mask.getMsbD j = decide ((j : ℤ) <
            if net.prefixLen ≤ 0 ∨ 32 < net.prefixLen then 24 else net.prefixLen)

theorem Shown.configured (hnodup : netNums.Nodup) (h : Shown nics netNums nics.length s) :
    Configured nics s := by
  refine ⟨netNums, hnodup, fun i nic net hnic hnet hstatic => ?_⟩
  obtain ⟨hi, -⟩ := List.getElem?_eq_some_iff.mp hnic
  obtain ⟨n, hn, hgiven, hline⟩ := h i nic net hi hnic hnet hstatic
  obtain ⟨mask, hmask, hbits⟩ := prefixToSubnet_mask net.prefixLen
  refine ⟨n, hn, hline, mask, ?_, hbits⟩
  rw [hgiven, Network.given, hmask]

theorem configured_of_dynamic (h : ∀ nic ∈ nics, isStaticNIC nic.config = false) (s : Console) :
    Configured nics s := by
  refine ⟨[], List.nodup_nil, fun i nic net hnic _ hstatic => ?_⟩
  rw [h nic (List.mem_of_getElem? hnic)] at hstatic
  exact absurd hstatic Bool.false_ne_true

theorem runWindowsSAC_wp (guestSAC : Bool) (hwell : AllWellWritten nics) :
    (runWindowsSAC quote guestSAC nics).wp answers (fun s' r =>
      (r = some false ∧ ∃ err, s'.marks = s.marks ++ [err]) ∨
      (r = some true ∧ s'.marks = s.marks ∧ (guestSAC = true → Configured nics s'))) s := by
  refine Proc.wp_seq (applyWindowsStaticIP_wp guestSAC hwell)
    fun s₁ a ⟨hmarks, hpanic, hskip, happlied⟩ => ?_
  cases a with
  | panicked => exact absurd rfl hpanic
  | failed err =>
    refine Proc.wp_ask_bind.mpr fun _ s₂ h₂ => Or.inl ⟨rfl, err, ?_⟩
    rw [h₂, ← hmarks]
  | skipped =>
    refine Or.inr ⟨rfl, hmarks, fun hsac => ?_⟩
    rcases hskip rfl with hno | hnone
    · rw [hno] at hsac
      exact absurd hsac Bool.false_ne_true
    · exact configured_of_dynamic hnone s₁
  | applied =>
    obtain ⟨netNums, hnodup, hshown⟩ := happlied rfl
    exact Or.inr ⟨rfl, hmarks, fun _ => hshown.configured hnodup⟩

end Pass

/-! ### A console that works -/

def Console.Listed (s : Console) (n : ℕ) : Prop := ∃ ip, (n, ip) ∈ s.lines

def Console.Grows (s s' : Console) : Prop := ∀ n, s.Listed n → s'.Listed n

/-- Reads that neither fail nor are given up.  Those of `Dial`, which has a probe and a minute, may
time out; a command has the budget of one read, so that it is lost with a read that times out. -/
def Live (probe : Text) (events : List ReadEvent) : Prop :=
  ∀ e ∈ events, ∃ data err, e = .read data err ∧ (∀ text, err ≠ some (.other text)) ∧
    (probe = [] → err ≠ some .timeout)

/-- The serial line works, no adapter vanishes, and an address that is set is there. -/
def responsive : Proc.Answers Console ConsoleCall ConsoleAns := fun s q r s' =>
  answers s q r s' ∧ s.Grows s' ∧
    match q, r with
    | .connect, err => err = none
    | .write text, err => err = none ∧
      ∀ n g, guestCommand (words isSpace text) = some (n, g) → s.Listed n → IsWord g.ip → '>' ∉ g.ip →
        (n, g.ip) ∈ s'.lines
    | .reads probe, events => Live probe events ∧
      if probe = [] then s'.pending = [] else occurs sacPrompt (received events) = true
    | .sleep, err => err = none
    | .drain, _ => True
    | .markFailed _, _ => True

theorem readUntilPrompt_live {probe sb : Text} {events : List ReadEvent} (hlive : Live probe events)
    (hsb : occurs sacPrompt sb = false) (h : occurs sacPrompt (sb ++ received events) = true) :
    ∃ out, readUntilPrompt sb events = .ok out := by
  induction events generalizing sb with
  | nil =>
    rw [received, List.append_nil, hsb] at h
    exact absurd h Bool.false_ne_true
  | cons e events ih =>
    obtain ⟨data, err, rfl, herr, -⟩ := hlive e (by simp)
    have hlive' : Live probe events := fun e he => hlive e (by simp [he])
    by_cases hprompt : occurs sacPrompt (sb ++ data) = true
    · have hdata : data ≠ [] := by
        rintro rfl
        rw [List.append_nil, hsb] at hprompt
        exact absurd hprompt Bool.false_ne_true
      exact ⟨sb ++ data, by simp [readUntilPrompt, hdata, hprompt]⟩
    · rw [Bool.not_eq_true] at hprompt
      rw [received, ← List.append_assoc] at h
      obtain ⟨out, hout⟩ := ih hlive' hprompt h
      refine ⟨out, ?_⟩
      cases err with
      | none => simpa [readUntilPrompt, hprompt] using hout
      | some err =>
        cases err with
        | timeout => simpa [readUntilPrompt, hprompt] using hout
        | other text => exact absurd rfl (herr text)

section Responsive
variable {quote : Text → String} {s : Console} {nics : List NIC} {netNums : List ℕ} {n : ℕ}

theorem sacCommand_responsive (cmd : Text) :
    (sacCommand quote cmd).wp responsive (fun s' r => ∃ out s₀ s₁, r = .ok out ∧
      s.Grows s₀ ∧ s₀.Takes (cmd ++ ['\r', '\n']) s₁ ∧ s₀.Grows s₁ ∧ s₁.Keeps s' ∧ s₁.Grows s' ∧
      (∀ g, guestCommand (words isSpace (cmd ++ ['\r', '\n'])) = some (n, g) → s₀.Listed n →
        IsWord g.ip → '>' ∉ g.ip → (n, g.ip) ∈ s₁.lines) ∧ s.Keeps s₀ ∧
      (words isSpace (cmd ++ ['\r', '\n']) = [['i']] → Lists s₁.lines out)) s := by
  refine Proc.wp_ask_bind.mpr fun _ s₀ ⟨⟨hdrain, hempty⟩, hgrows₀, _⟩ => ?_
  refine Proc.wp_ask_bind.mpr fun err s₁ ⟨hwrite, hgrows₁, hnone, heffect⟩ => ?_
  subst hnone
  obtain ⟨htakes, response, hresponse, hpending, hlists⟩ := hwrite
  rw [hempty, List.nil_append] at hpending
  refine Proc.wp_ask_bind.mpr fun events s₂ ⟨⟨hkeeps, hread⟩, hgrows₂, hlive, hall⟩ => ?_
  have hall' : s₂.pending = [] := by simpa using hall
  have hreceived : received events = response ++ sacPrompt := by
    rw [← hpending, ← hread rfl, hall', List.append_nil]
  have hprompt : occurs sacPrompt ([] ++ received events) = true := by
    rw [hreceived, List.nil_append]
    simpa using occurs_append sacPrompt response []
  obtain ⟨out, hout⟩ := readUntilPrompt_live hlive (by rfl) hprompt
  rw [hout]
  refine ⟨out, s₀, s₁, rfl, hgrows₀, htakes, hgrows₁, hkeeps, hgrows₂, heffect n, hdrain, fun hi => ?_⟩
  rw [readUntilPrompt_response hresponse ((hread rfl).trans hpending) hout]
  exact hlists hi

theorem list_responsive :
    (run quote [['i']]).wp responsive (fun s' r => ∃ out s₁, r = .ok out ∧ s.Keeps s₁ ∧ s.Grows s₁ ∧
      s₁.Grows s' ∧ Lists s₁.lines out) s := by
  refine Proc.wp_mono ?_ (sacCommand_responsive (n := 0) ([' '].intercalate [['i']]))
  rintro s' r ⟨out, s₀, s₁, hr, hgrows₀, htakes, hgrows₁, _, hgrows₂, _, h₀, hlists⟩
  have hkeeps : s₀.Keeps s₁ := by simpa only [Console.Takes, words_list, guestCommand] using htakes
  exact ⟨out, s₁, hr, h₀.trans hkeeps, fun m hm => hgrows₁ m (hgrows₀ m hm), hgrows₂, hlists words_list⟩

theorem set_responsive {net : Network} (hnet : net.WellWritten) (hip : '>' ∉ net.ip.toList)
    (hn : s.Listed n) :
    (run quote (setCommand n net)).wp responsive (fun s' r => ∃ out, r = .ok out ∧ s.Grows s' ∧
      s'.given n = some net.given ∧ (n, net.ip.toList) ∈ s'.lines) s := by
  refine Proc.wp_mono ?_ (sacCommand_responsive (n := n) ([' '].intercalate (setCommand n net)))
  rintro s' r ⟨out, s₀, s₁, hr, hgrows₀, htakes, hgrows₁, hkeeps, hgrows₂, heffect, h₀, _⟩
  have hcommand := (congrArg guestCommand (words_setCommand hnet n)).trans (guestCommand_setCommand n net)
  have hgave : s₀.Gave n net.given s₁ := by
    rw [Console.Takes, hcommand] at htakes
    exact htakes
  have hline : (n, net.given.ip) ∈ s₁.lines :=
    heffect net.given hcommand (hgrows₀ n hn) hnet.ip hip
  refine ⟨out, hr, fun m hm => hgrows₂ m (hgrows₁ m (hgrows₀ m hm)), ?_, ?_⟩
  · rw [hkeeps.given, hgave.given_self]
  · exact hkeeps.holds n net.given trivial hgave.given_self hline

/-- The first listing has them all. -/
theorem sacEnumerateNICs_responsive {wantNICs attempts : ℕ} {want : List ℕ} (hwant : want.Nodup)
    (hlen : wantNICs ≤ want.length) (hlisted : ∀ n ∈ want, s.Listed n) (netNums : List ℕ) :
    (sacEnumerateNICs quote wantNICs (attempts + 1) netNums).wp responsive (fun s' r => ∃ nums,
      r = .ok nums ∧ wantNICs ≤ nums.length ∧ ∀ n ∈ nums, s'.Listed n) s := by
  refine Proc.wp_seq list_responsive fun s' r ⟨out, s₁, hr, _, hgrows, hgrows', hlists⟩ => ?_
  subst hr
  have hmem : ∀ m, m ∈ parseNetEntries out ↔ s₁.Listed m := mem_parseNetEntries hlists
  have hfull : wantNICs ≤ (parseNetEntries out).length := by
    have hsub : want ⊆ parseNetEntries out := fun m hm => (hmem m).mpr (hgrows m (hlisted m hm))
    exact Nat.le_trans hlen (hwant.subperm hsub).length_le
  simp only [hfull, decide_true, if_true, Proc.wp_pure]
  exact ⟨_, rfl, hfull, fun m hm => hgrows' m ((hmem m).mp hm)⟩

/-- The address is shown right after it was set. -/
theorem sacSetNICIP_responsive {net : Network} (hnet : net.WellWritten) (hip : '>' ∉ net.ip.toList)
    (hn : s.Listed n) (attempts : ℕ) :
    (sacSetNICIP quote n net (attempts + 1)).wp responsive (fun s' r => r = none ∧ s.Grows s') s := by
  refine Proc.wp_seq (set_responsive hnet hip hn) fun s₁ r ⟨out, hr, hgrows₁, hgiven, hline⟩ => ?_
  subst hr
  refine Proc.wp_seq list_responsive fun s₃ r ⟨out, s₂, hr, hkeeps, hgrows₂, hgrows₃, hlists⟩ => ?_
  subst hr
  have hline₂ : (n, net.ip.toList) ∈ s₂.lines := hkeeps.holds n net.given trivial hgiven hline
  simp only [(netHasIP_iff hlists n _).mpr hline₂, if_true, Proc.wp_pure]
  exact ⟨trivial, fun m hm => hgrows₃ m (hgrows₂ m (hgrows₁ m hm))⟩

theorem setNICs_responsive (hwell : AllWellWritten nics)
    (hip : ∀ nic ∈ nics, ∀ net, nic.network = some net → '>' ∉ net.ip.toList)
    (k : ℕ) (hlen : k + nics.length ≤ netNums.length) (hlisted : ∀ n ∈ netNums, s.Listed n) :
    (setNICs quote netNums k nics).wp responsive (fun _ r => r = .applied) s := by
  induction nics generalizing k s with
  | nil => rfl
  | cons nic nics ih =>
    have hwell' : AllWellWritten nics := fun nic' h => hwell nic' (by simp [h])
    have hip' := fun nic' (h : nic' ∈ nics) => hip nic' (by simp [h])
    have hlen' : (k + 1) + nics.length ≤ netNums.length := by
      rw [List.length_cons] at hlen
      omega
    unfold setNICs
    cases hnet : nic.network with
    | none => exact ih hwell' hip' (k + 1) hlen' hlisted
    | some net =>
      by_cases hstatic : isStaticNIC nic.config = true
      · have hk : k < netNums.length := by omega
        have hnum := hlisted netNums[k] (List.getElem_mem hk)
        simp only [hstatic, if_true, List.getElem?_eq_getElem hk]
        refine Proc.wp_seq (sacSetNICIP_responsive (hwell nic (by simp) net hnet hstatic)
          (hip nic (by simp) net hnet) hnum 9) fun s₁ r ⟨hr, hgrows⟩ => ?_
        subst hr
        exact ih hwell' hip' (k + 1) hlen' fun m hm => hgrows m (hlisted m hm)
      · simp only [hstatic, Bool.false_eq_true, if_false]
        exact ih hwell' hip' (k + 1) hlen' hlisted

theorem dial_responsive : dial.wp responsive (fun s' r => r = none ∧ s.Grows s') s := by
  refine Proc.wp_ask_bind.mpr fun err s₁ ⟨_, hgrows₁, hnone⟩ => ?_
  subst hnone
  refine Proc.wp_ask_bind.mpr fun events s₂ ⟨_, hgrows₂, hlive, hprompt⟩ => ?_
  have hprompt' : occurs sacPrompt (received events) = true := by simpa using hprompt
  rw [← List.nil_append (received events)] at hprompt'
  obtain ⟨out, hout⟩ := readUntilPrompt_live hlive (by rfl) hprompt'
  rw [hout]
  exact ⟨rfl, fun m hm => hgrows₂ m (hgrows₁ m hm)⟩

theorem runWindowsSAC_responsive (guestSAC : Bool) (hwell : AllWellWritten nics)
    (hip : ∀ nic ∈ nics, ∀ net, nic.network = some net → '>' ∉ net.ip.toList) {want : List ℕ}
    (hwant : want.Nodup) (hlen : nics.length ≤ want.length) (hlisted : ∀ n ∈ want, s.Listed n) :
    (runWindowsSAC quote guestSAC nics).wp responsive (fun _ r => r = some true) s := by
  have happly : (applyWindowsStaticIP quote guestSAC nics).wp responsive
      (fun _ r => r = .skipped ∨ r = .applied) s := by
    unfold applyWindowsStaticIP
    split
    · exact .inl rfl
    · refine Proc.wp_seq dial_responsive fun s₁ r ⟨hr, hgrows⟩ => ?_
      subst hr
      refine Proc.wp_seq (sacEnumerateNICs_responsive hwant hlen
        (fun m hm => hgrows m (hlisted m hm)) []) fun s₂ r ⟨nums, hr, hnums, hlisted'⟩ => ?_
      subst hr
      exact Proc.wp_mono (fun _ _ hr => .inr hr)
        (setNICs_responsive hwell hip 0 (by rwa [Nat.zero_add]) hlisted')
  refine Proc.wp_seq happly fun s₁ r hr => ?_
  rcases hr with rfl | rfl
  · rfl
  · rfl

end Responsive

/-! ### A console that keeps the contract -/

namespace Console

/-- One line for each address, as the guest prints it. -/
def listing : List (ℕ × Text) → Text
  | [] => []
  | (n, ip) :: lines =>
    ['\n'] ++ (['N', 'e', 't', ':'] ++ ([' '] ++ (itoa n ++ ([','] ++ ([' '] ++ (['I', 'p', '='] ++
      (ip ++ '\r' :: listing lines)))))))

def assign (n : ℕ) (ip : Text) : List (ℕ × Text) → List (ℕ × Text)
  | [] => []
  | (m, a) :: lines => (m, if m = n then ip else a) :: assign n ip lines

def printable (ip : Text) : Bool := !ip.isEmpty && ip.all fun c => !isSpace c && c != '>'

/-- What the guest does with a line. -/
def handle (s : Console) (text : Text) : Console :=
  match guestCommand (words isSpace text) with
  | some (n, g) =>
    { s with
      given := Function.update s.given n (some g)
      lines := if printable g.ip then assign n g.ip s.lines else s.lines
      pending := s.pending ++ ([] ++ sacPrompt) }
  | none => { s with pending := s.pending ++ (listing s.lines ++ sacPrompt) }

def serve (s : Console) : (q : ConsoleCall) → ConsoleAns q × Console
  | .connect => (none, s)
  | .drain => ((), { s with pending := [] })
  | .write text => (none, s.handle text)
  | .reads probe =>
    if probe = [] then ([.read s.pending none], { s with pending := [] })
    else ([.read sacPrompt none], s)
  | .sleep => (none, s)
  | .markFailed message => ((), { s with marks := s.marks ++ [message] })

/-- The addresses can be printed and the numbers read. -/
def Printable (s : Console) : Prop := ∀ l ∈ s.lines, l.1 < 2 ^ 63 ∧ printable l.2 = true

end Console

section Serve
variable {s : Console}

theorem printable_iff (ip : Text) : Console.printable ip = true ↔ IsWord ip ∧ '>' ∉ ip := by
  constructor
  · intro h
    simp only [Console.printable, Bool.and_eq_true, List.all_eq_true] at h
    refine ⟨⟨fun hnil => ?_, fun c hc => ?_⟩, fun hc => ?_⟩
    · simp [hnil] at h
    · simpa using (h.2 c hc).1
    · simpa using (h.2 '>' hc).2
  · rintro ⟨hword, hip⟩
    simp only [Console.printable, Bool.and_eq_true, List.all_eq_true]
    refine ⟨by simp [hword.ne_nil], fun c hc => ?_⟩
    have hne : c ≠ '>' := fun heq => hip (heq ▸ hc)
    simp [hword.solid c hc, hne]

theorem mem_assign (n : ℕ) (ip : Text) {m : ℕ} {a : Text} {lines : List (ℕ × Text)} (h : (m, a) ∈ lines) :
    (m, if m = n then ip else a) ∈ Console.assign n ip lines := by
  induction lines with
  | nil => simp at h
  | cons l lines ih =>
    rcases List.mem_cons.mp h with rfl | h
    · simp [Console.assign]
    · simp [Console.assign, ih h]

theorem of_mem_assign {n : ℕ} {ip : Text} {lines : List (ℕ × Text)} {l : ℕ × Text}
    (h : l ∈ Console.assign n ip lines) : ∃ l' ∈ lines, l'.1 = l.1 ∧ (l.2 = ip ∨ l.2 = l'.2) := by
  induction lines with
  | nil => simp [Console.assign] at h
  | cons l' lines ih =>
    rcases List.mem_cons.mp h with rfl | h
    · refine ⟨l', by simp, rfl, ?_⟩
      by_cases hn : l'.1 = n
      · simp [hn]
      · simp [hn]
    · obtain ⟨l'', hmem, heq⟩ := ih h
      exact ⟨l'', by simp [hmem], heq⟩

theorem lists_listing {lines : List (ℕ × Text)}
    (h : ∀ l ∈ lines, l.1 < 2 ^ 63 ∧ Console.printable l.2 = true) :
    Lists lines (Console.listing lines ++ sacPrompt) := by
  induction lines with
  | nil => exact .rest (by decide)
  | cons l lines ih =>
    obtain ⟨hnum, hprintable⟩ := h l (by simp)
    obtain ⟨hword, _⟩ := (printable_iff l.2).mp hprintable
    have hwrites : Writes l.1 (itoa l.1) := by
      refine ⟨(itoa_isWord l.1).ne_nil, fun c hc => itoa_isDigit hc, ?_⟩
      rw [atoi, itoa, Nat.ofDigitChars_ten_toDigits]
      omega
    have hblank : Blanks [' '] := ⟨by decide, List.all_eq_true.mp (by decide)⟩
    have hrest := ih fun l' hl' => h l' (by simp [hl'])
    have hline := Lists.line (show 'N' ∉ ['\n'] by decide) hblank hwrites hblank hword
      (show isSpace '\r' = true by decide) hrest
    simpa [Console.listing] using hline

theorem prompt_not_mem_listing {lines : List (ℕ × Text)} (h : ∀ l ∈ lines, '>' ∉ l.2) :
    '>' ∉ Console.listing lines := by
  induction lines with
  | nil => simp [Console.listing]
  | cons l lines ih =>
    have hdigits : '>' ∉ itoa l.1 := fun hmem => absurd (itoa_isDigit hmem) (by decide)
    have hip := h l (by simp)
    have hrest := ih fun l' hl' => h l' (by simp [hl'])
    simp [Console.listing, hdigits, hip, hrest]

theorem handle_takes (s : Console) (text : Text) : s.Takes text (s.handle text) := by
  unfold Console.Takes Console.handle
  split
  · rename_i n g _
    refine ⟨rfl, rfl, fun m g' hm hg hline => ?_⟩
    have hmem := mem_assign n g.ip hline
    rw [if_neg hm] at hmem
    by_cases hip : Console.printable g.ip = true
    · simpa only [hip, if_true] using hmem
    · simpa only [hip, Bool.false_eq_true, if_false] using hline
  · exact ⟨rfl, rfl, fun m g _ _ hline => hline⟩

theorem handle_responds (hs : s.Printable) (text : Text) : s.Responds text (s.handle text) := by
  unfold Console.Responds Console.handle
  split
  · rename_i n g hcommand
    refine ⟨[], by simp, rfl, fun hi => ?_⟩
    rw [hi] at hcommand
    simp [guestCommand] at hcommand
  · have hquiet : ∀ l ∈ s.lines, '>' ∉ l.2 := fun l hl => ((printable_iff l.2).mp (hs l hl).2).2
    exact ⟨Console.listing s.lines, prompt_not_mem_listing hquiet, rfl, fun _ => lists_listing hs⟩

theorem handle_printable (hs : s.Printable) (text : Text) : (s.handle text).Printable := by
  unfold Console.handle
  split
  · rename_i n g _
    by_cases hip : Console.printable g.ip = true
    · simp only [hip, if_true]
      intro l hl
      obtain ⟨l', hl', hnum, haddr⟩ := of_mem_assign hl
      obtain ⟨hsmall, hprintable⟩ := hs l' hl'
      rw [← hnum]
      rcases haddr with haddr | haddr
      · exact ⟨hsmall, haddr ▸ hip⟩
      · exact ⟨hsmall, haddr ▸ hprintable⟩
    · simp only [hip, Bool.false_eq_true, if_false]
      exact hs
  · exact hs

theorem handle_grows (s : Console) (text : Text) : s.Grows (s.handle text) := by
  intro m hm
  obtain ⟨a, ha⟩ := hm
  unfold Console.handle
  split
  · rename_i n g _
    by_cases hip : Console.printable g.ip = true
    · exact ⟨_, by simpa only [hip, if_true] using mem_assign n g.ip ha⟩
    · exact ⟨a, by simpa only [hip, Bool.false_eq_true, if_false] using ha⟩
  · exact ⟨a, ha⟩

theorem handle_sets {text : Text} {n : ℕ} {g : Given}
    (hcommand : guestCommand (words isSpace text) = some (n, g)) (hn : s.Listed n) (hword : IsWord g.ip)
    (hip : '>' ∉ g.ip) : (n, g.ip) ∈ (s.handle text).lines := by
  obtain ⟨a, ha⟩ := hn
  have hmem := mem_assign n g.ip ha
  rw [if_pos rfl] at hmem
  have hprintable := (printable_iff g.ip).mpr ⟨hword, hip⟩
  simpa only [Console.handle, hcommand, hprintable, if_true] using hmem

theorem serve_responsive (s : Console) (q : ConsoleCall) (hs : s.Printable) :
    responsive s q (s.serve q).1 (s.serve q).2 ∧ (s.serve q).2.Printable := by
  have hsame : s.Grows s := fun _ h => h
  cases q with
  | connect => exact ⟨⟨Console.Keeps.refl s, hsame, rfl⟩, hs⟩
  | drain => exact ⟨⟨⟨⟨rfl, rfl, fun _ _ _ _ h => h⟩, rfl⟩, hsame, trivial⟩, hs⟩
  | write text =>
    refine ⟨⟨⟨handle_takes s text, handle_responds hs text⟩, handle_grows s text, rfl, ?_⟩,
      handle_printable hs text⟩
    exact fun n g hcommand hn hword hip => handle_sets hcommand hn hword hip
  | reads probe =>
    have hlive : ∀ data, Live probe [.read data none] := by
      intro data e he
      rw [List.mem_singleton] at he
      exact ⟨data, none, he, nofun, nofun⟩
    by_cases hprobe : probe = []
    · subst hprobe
      refine ⟨⟨⟨⟨rfl, rfl, fun _ _ _ _ h => h⟩, fun _ => ?_⟩, hsame, hlive _, rfl⟩, hs⟩
      simp [Console.serve, received]
    · simp only [Console.serve, hprobe, if_false]
      exact ⟨⟨⟨Console.Keeps.refl s, fun h => absurd h hprobe⟩, hsame, hlive _, by
        simp [hprobe, received]; decide⟩, hs⟩
  | sleep => exact ⟨⟨Console.Keeps.refl s, hsame, rfl⟩, hs⟩
  | markFailed message => exact ⟨⟨rfl, hsame, trivial⟩, hs⟩

theorem exec_serve (hs : s.Printable) {α : Type} (p : ConsoleCode α) :
    Proc.Exec responsive s p (p.run Console.serve s).1 (p.run Console.serve s).2 :=
  Proc.exec_run_of serve_responsive hs p

end Serve

/-! ### Results -/

/-- Whatever the console does within its contract, and however its output is cut into reads, a pass
that reports success has every static address shown by an adapter of its own, with the mask of its
prefix; a pass that does not leaves the pod marked as failed.  It never indexes past the listing. -/
theorem static_addresses_shown {quote : Text → String} {guestSAC : Bool} {nics : List NIC}
    (hwell : AllWellWritten nics) {s s' : Console} {r : Option Bool}
    (h : Proc.Exec answers s (runWindowsSAC quote guestSAC nics) s' r) :
    (r = some false ∧ ∃ err, s'.marks = s.marks ++ [err]) ∨
    (r = some true ∧ s'.marks = s.marks ∧ (guestSAC = true → Configured nics s')) :=
  h.post (runWindowsSAC_wp guestSAC hwell)

/- Two static NICs, the second without a usable prefix, and one that gets its address by DHCP. -/
def sampleNICs : List NIC :=
  [⟨"02:00:00:00:00:01", some ⟨"10.0.0.5", 20, "10.0.0.1"⟩⟩, ⟨"02:00:00:00:00:02", none⟩,
    ⟨"02:00:00:00:00:03", some ⟨"10.1.0.7", 0, "10.1.0.1"⟩⟩]

/- The adapters as the guest numbers them, one with two addresses. -/
def sampleConsole : Console where
  lines := [(3, ['0']), (9, ['1']), (9, ['2']), (4, ['0'])]
  given := fun _ => none
  pending := []
  marks := []

def samplePass : ConsoleCode (Option Bool) := runWindowsSAC String.ofList true sampleNICs

theorem sampleConsole_printable : sampleConsole.Printable := by
  unfold Console.Printable
  decide

theorem sampleNICs_wellWritten : AllWellWritten sampleNICs := by
  intro nic hnic net hnet _
  simp only [sampleNICs, List.mem_cons, List.not_mem_nil, or_false] at hnic
  rcases hnic with rfl | rfl | rfl
  · cases hnet
    exact ⟨isWord_of_all (by decide), isWord_of_all (by decide)⟩
  · cases hnet
  · cases hnet
    exact ⟨isWord_of_all (by decide), isWord_of_all (by decide)⟩

theorem sampleNICs_no_prompt :
    ∀ nic ∈ sampleNICs, ∀ net, nic.network = some net → '>' ∉ net.ip.toList := by
  intro nic hnic net hnet
  simp only [sampleNICs, List.mem_cons, List.not_mem_nil, or_false] at hnic
  rcases hnic with rfl | rfl | rfl
  · cases hnet
    decide
  · cases hnet
  · cases hnet
    decide

theorem sampleConsole_listed : ∀ n ∈ [3, 9, 4], sampleConsole.Listed n := by
  intro n hn
  simp only [List.mem_cons, List.not_mem_nil, or_false] at hn
  rcases hn with rfl | rfl | rfl
  · exact ⟨['0'], by decide⟩
  · exact ⟨['1'], by decide⟩
  · exact ⟨['0'], by decide⟩

theorem sample_addresses_shown : Configured sampleNICs (samplePass.run Console.serve sampleConsole).1 := by
  have hexec := exec_serve sampleConsole_printable samplePass
  have hexec' : Proc.Exec answers sampleConsole samplePass _ _ := hexec.mono fun _ _ _ _ h => h.1
  have hok := hexec.post (runWindowsSAC_responsive true sampleNICs_wellWritten sampleNICs_no_prompt
    (by decide) (by decide) sampleConsole_listed)
  rcases static_addresses_shown sampleNICs_wellWritten hexec' with ⟨hno, _⟩ | ⟨_, _, hyes⟩
  · rw [hok] at hno
    exact absurd hno (by decide)
  · exact hyes rfl

/-- Where the line works, the adapters are there and every command is answered within the time of
one read, the pass succeeds. -/
theorem static_addresses_settle {quote : Text → String} {guestSAC : Bool} {nics : List NIC}
    (hwell : AllWellWritten nics)
    (hip : ∀ nic ∈ nics, ∀ net, nic.network = some net → '>' ∉ net.ip.toList) {want : List ℕ}
    (hwant : want.Nodup) (hlen : nics.length ≤ want.length) {s s' : Console}
    (hlisted : ∀ n ∈ want, s.Listed n) {r : Option Bool}
    (h : Proc.Exec responsive s (runWindowsSAC quote guestSAC nics) s' r) : r = some true :=
  h.post (runWindowsSAC_responsive guestSAC hwell hip hwant hlen hlisted)

theorem sample_addresses_settle : (samplePass.run Console.serve sampleConsole).2 = some true :=
  static_addresses_settle sampleNICs_wellWritten sampleNICs_no_prompt (by decide) (by decide)
    sampleConsole_listed (exec_serve sampleConsole_printable samplePass)

end VkCocoon.Sac
