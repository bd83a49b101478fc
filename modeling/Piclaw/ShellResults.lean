import Piclaw.ShellChildren

/-!
# Whose result a command has

The stream that a command reads on its child: a line feed that may be left of the command before,
the command's own bytes, and nothing else. The invariant of the shell says it of the running
command; of a shell at rest it says that its child has been interrupted, or has nothing to do.
-/

namespace Piclaw

open Utf8Decoding RemoteShell

namespace PersistentShell

section Streams

variable {unique : Unique} {earlier seen rest : Bytes} {output : Text} {n : ℕ}

/-- What the end line of the command before may leave behind. -/
def Leftover (bytes : Bytes) : Prop := bytes = [] ∨ bytes = [10]

theorem Leftover.closed (h : Leftover earlier) : earlier = [] ∨ earlier.getLast? = some 10 := by
  rcases h with rfl | rfl
  · exact Or.inl rfl
  · exact Or.inr rfl

theorem Leftover.lines (h : Leftover earlier) {l : Text} (hl : l ∈ earlierLines earlier) :
    l = [] := by
  rcases h with rfl | rfl
  · cases hl
  · exact List.mem_singleton.mp hl

theorem Leftover.quiet (h : Leftover earlier) :
    ∀ l ∈ earlierLines earlier, endCode (endMarker unique) l = none := by
  intro l hl
  rw [h.lines hl]
  exact endCode_short (Nat.zero_le _)

theorem Leftover.drop (h : Leftover earlier) (k : ℕ) : Leftover (earlier.drop k) := by
  rcases h with rfl | rfl
  · exact Or.inl List.drop_nil
  · cases k with
    | zero => exact Or.inr rfl
    | succ k => exact Or.inl List.drop_nil

theorem startMarker_ne_nil : startMarker unique ≠ [] := by
  obtain ⟨front, hfront⟩ := @startMarker_concat unique
  rw [hfront]
  exact List.append_ne_nil_of_right_ne_nil _ (List.cons_ne_nil _ _)

theorem parse_leftover (h : Leftover earlier) (houtput : ¬ endMarker unique <:+: output)
    (hseen : seen <+: earlier ++ commandBytes unique output) :
    parseDelimitedShellOutput (decode seen) (startMarker unique) (endMarker unique) = none := by
  refine parse_before h.closed h.quiet (fun bytes hbytes => ?_) houtput hseen
  exact parse_open h.closed (fun hmem => startMarker_ne_nil (h.lines hmem)) hbytes

theorem commandBytes_eq : commandBytes unique output =
    (encode (startMarker unique) ++ 10 :: (encode output ++ [10])) ++
      encode (endMarker unique ++ [':']) := by
  unfold commandBytes
  simp

theorem digit_code {c : Char} (h : c.isDigit = true) :
    encodeChar c = [c.toNat] ∧ 48 ≤ c.toNat ∧ c.toNat ≤ 57 := by
  simp only [Char.isDigit, Bool.and_eq_true, decide_eq_true_eq, ge_iff_le,
    UInt32.le_iff_toNat_le] at h
  have hzero : '0'.val.toNat = 48 := rfl
  have hnine : '9'.val.toNat = 57 := rfl
  have hcode : 48 ≤ c.toNat ∧ c.toNat ≤ 57 := by
    change 48 ≤ c.val.toNat ∧ c.val.toNat ≤ 57
    omega
  exact ⟨encodeChar_ascii (by omega), hcode⟩

/-- A cut among the digits of an exit code leaves digits on both sides. -/
theorem digits_cut {tail : Bytes} (hstream : tail ++ rest = encode (exitDigits n) ++ [10])
    (hne : tail ≠ []) (hlt : tail.length < (exitDigits n).length) :
    ∃ digits, digits ≠ [] ∧ digits.all Char.isDigit = true ∧ tail = encode digits ∧
      ∃ d more, rest = d :: more ∧ 48 ≤ d ∧ d ≤ 57 := by
  have hall := exitDigits_all n
  obtain ⟨hsize, hascii⟩ := encode_digits_length hall
  have htail : tail <+: encode (exitDigits n) ++ [10] := hstream ▸ List.prefix_append _ _
  rcases prefix_append_cases htail with hdigits | ⟨more, rfl, -⟩
  · obtain ⟨digits, ⟨others, hothers⟩, rfl⟩ := ascii_front hascii hdigits
    have hdigit : digits.all Char.isDigit = true :=
      List.all_eq_true.mpr fun c hc =>
        List.all_eq_true.mp hall c (hothers ▸ List.mem_append_left _ hc)
    refine ⟨digits, ?_, hdigit, rfl, ?_⟩
    · rintro rfl
      exact hne rfl
    cases others with
    | nil =>
      rw [List.append_nil] at hothers
      rw [(encode_digits_length hdigit).1, hothers] at hlt
      exact absurd hlt (lt_irrefl _)
    | cons c others =>
      have hc : c.isDigit = true :=
        List.all_eq_true.mp hall c (hothers ▸ List.mem_append_right _ List.mem_cons_self)
      obtain ⟨hcode, hge, hle⟩ := digit_code hc
      refine ⟨c.toNat, encode others ++ [10], ?_, hge, hle⟩
      have hsplit : encode (exitDigits n) = encode digits ++ encode (c :: others) := by
        rw [← hothers]
        exact List.flatMap_append
      rw [hsplit, List.append_assoc, List.append_right_inj] at hstream
      rw [hstream]
      change (encodeChar c ++ encode others) ++ [10] = _
      rw [hcode]
      rfl
  · rw [List.length_append, hsize] at hlt
    omega

/-- What has been read of a command that ends is all before the code, or half of the code, or
enough. -/
theorem parse_stream (h : Leftover earlier) (hstart : ¬ startMarker unique <:+: output)
    (houtput : ¬ endMarker unique <:+: output)
    (hstream : seen ++ rest = printed unique earlier output n)
    (hwhole : ¬ Shell.SplitsCode unique seen rest) :
    seen <+: earlier ++ commandBytes unique output ∨
      (parseDelimitedShellOutput (decode seen) (startMarker unique) (endMarker unique) =
        some (normalise (output ++ ['\n']), (n : ℤ)) ∧ Leftover rest) := by
  have hsize := (encode_digits_length (exitDigits_all n)).1
  have hprinted : printed unique earlier output n =
      (earlier ++ commandBytes unique output) ++ (encode (exitDigits n) ++ [10]) := by
    unfold printed
    rw [List.append_assoc]
  have hfront : seen <+: printed unique earlier output n := hstream ▸ List.prefix_append _ _
  by_cases hlong : (earlier ++ commandBytes unique output).length < seen.length
  · refine Or.inr ?_
    obtain ⟨m, -, hparse, -, hfull⟩ :=
      parse_after h.closed h.quiet hstart houtput hfront hlong
    have hbehind := hfront
    rw [hprinted] at hbehind
    rcases prefix_append_cases hbehind with hshort | ⟨tail, rfl, -⟩
    · have := hshort.length_le
      omega
    rw [hprinted, List.append_assoc, List.append_right_inj] at hstream
    have hend : (exitDigits n).length ≤ tail.length := by
      by_contra hshort
      have hne : tail ≠ [] := by
        rintro rfl
        simp at hlong
      obtain ⟨digits, hdigits, hdigit, rfl, hnext⟩ := digits_cut hstream hne (not_le.mp hshort)
      refine hwhole ⟨earlier ++ (encode (startMarker unique) ++ 10 :: (encode output ++ [10])),
        digits, hdigits, hdigit, ?_, hnext⟩
      rw [commandBytes_eq]
      simp only [List.append_assoc]
    have hm := hfull (by
      simp only [List.length_append]
      omega)
    rw [hm, List.take_length, digitsNumber_exitDigits] at hparse
    refine ⟨hparse, ?_⟩
    have hdropped := congrArg (List.drop (exitDigits n).length) hstream
    rw [← hsize, List.drop_left, List.drop_append_of_le_length (by omega), hsize] at hdropped
    rcases List.append_eq_singleton_iff.mp hdropped with ⟨-, hrest⟩ | ⟨-, hrest⟩
    · exact Or.inr hrest
    · exact Or.inl hrest
  · refine Or.inl ?_
    rw [hprinted] at hfront
    exact List.prefix_of_prefix_length_le hfront (List.prefix_append _ _) (by omega)

end Streams

section Invariant

def Child.Interrupted (child : Child) : Prop := child.stdin.getLast? = some .interrupt

def Child.Rested (child : Child) : Prop :=
  child.stdin = [] ∧ child.busy = false ∧ Leftover child.stdout

/-- The child has not read the command's line, or it has; no digit of an exit code has been
delivered. -/
def Child.Streams (child : Child) (running : Running) : Prop :=
  (¬ startMarker running.command.unique <:+: running.command.output ∧
    ¬ endMarker running.command.unique <:+: running.command.output) ∧
  ∃ earlier, Leftover earlier ∧
    running.stdoutChunks.flatten <+:
      earlier ++ commandBytes running.command.unique running.command.output ∧
    ((child.stdin = [.line running.command] ∧ child.busy = false ∧
        running.stdoutChunks.flatten ++ child.stdout = earlier) ∨
      (child.stdin = [] ∧ child.busy = running.command.exitCode.isNone ∧
        running.stdoutChunks.flatten ++ child.stdout =
          earlier ++ Shell.lineOutput false running.command))

namespace Shell

variable {s : Shell} {graceMs : ℕ}

structure Kept (s : Shell) : Prop where
  born : ∀ c, s.child = some c → c < s.spawned
  owner : ∀ running, s.running = some running → s.child = some running.child
  recorded : ∀ e ∈ s.settled, e.running.child < s.spawned
  rested : s.running = none → ∀ c, s.child = some c → (s.children c).Alive →
    (s.children c).Interrupted ∨ (s.children c).Rested
  interrupted : ∀ running, s.running = some running → ¬ running.Undisturbed →
    (s.children running.child).Alive → (s.children running.child).Interrupted
  streams : ∀ running, s.running = some running → running.Undisturbed →
    (s.children running.child).Alive → (s.children running.child).Streams running
  results : ∀ e ∈ s.settled, e.running.Undisturbed → (s.children e.running.child).Alive →
    ∃ n, e.running.command.exitCode = some n ∧
      e.result = .resolved n (normalise (e.running.command.output ++ ['\n']))

theorem kept_initial : initial.Kept := by
  constructor <;> simp [initial]

theorem lineOutput_ends {command : Command} {n : ℕ} (h : command.exitCode = some n)
    (earlier : Bytes) : earlier ++ lineOutput false command =
      printed command.unique earlier command.output n := by
  unfold lineOutput printed commandBytes
  rw [h]
  simp

theorem lineOutput_open {command : Command} (h : command.exitCode = none) :
    lineOutput false command <+: commandBytes command.unique command.output := by
  unfold lineOutput commandBytes
  rw [h]
  exact ⟨10 :: encode (endMarker command.unique ++ [':']), by simp⟩

theorem children_setChild (c : ℕ) (child : Child) (d : ℕ) :
    (s.setChild c child).children d = if d = c then child else s.children d :=
  Function.update_apply _ _ _ _

theorem children_setChild_self (c : ℕ) (child : Child) : (s.setChild c child).children c = child :=
  (children_setChild c child c).trans (if_pos rfl)

theorem alive_setChild {c d : ℕ} {child : Child} (halive : child.Alive → (s.children c).Alive)
    (hd : ((s.setChild c child).children d).Alive) : (s.children d).Alive := by
  rw [children_setChild] at hd
  split_ifs at hd with heq
  · exact heq ▸ halive hd
  · exact hd

/-- A child that only goes on. -/
theorem Kept.setChild (h : s.Kept) {c : ℕ} {child : Child}
    (halive : child.Alive → (s.children c).Alive)
    (hinterrupted : (s.children c).Interrupted → child.Interrupted)
    (hrested : s.running = none → (s.children c).Rested → child.Rested)
    (hstreams : ∀ running, s.running = some running → running.child = c →
      (s.children c).Streams running → child.Streams running) : (s.setChild c child).Kept := by
  refine ⟨h.born, h.owner, h.recorded, ?_, ?_, ?_, fun e he hquiet hd =>
    h.results e he hquiet (alive_setChild halive hd)⟩
  · intro hrun d hd hlives
    have hbefore := h.rested hrun d hd (alive_setChild halive hlives)
    rw [children_setChild]
    split_ifs with heq
    · subst heq
      exact hbefore.imp hinterrupted (hrested hrun)
    · exact hbefore
  · intro running hrun hquiet hlives
    have hbefore := h.interrupted running hrun hquiet (alive_setChild halive hlives)
    rw [children_setChild]
    split_ifs with heq
    · exact hinterrupted (heq ▸ hbefore)
    · exact hbefore
  · intro running hrun hquiet hlives
    have hbefore := h.streams running hrun hquiet (alive_setChild halive hlives)
    rw [children_setChild]
    split_ifs with heq
    · exact hstreams running hrun heq (heq ▸ hbefore)
    · exact hbefore

theorem nextLine_spec {stdin rest : List Input} {interrupted : Bool} {command : Command}
    (h : nextLine stdin = some (interrupted, command, rest)) :
    ∃ front, stdin = front ++ .line command :: rest := by
  induction stdin generalizing interrupted with
  | nil => cases h
  | cons input stdin ih =>
    cases input with
    | interrupt =>
      rw [nextLine] at h
      obtain ⟨⟨i, c, r⟩, hnext, heq⟩ := Option.map_eq_some_iff.mp h
      simp only [Prod.mk.injEq] at heq
      obtain ⟨-, rfl, rfl⟩ := heq
      obtain ⟨front, rfl⟩ := ih hnext
      exact ⟨.interrupt :: front, rfl⟩
    | line other =>
      rw [nextLine] at h
      simp only [Option.some.injEq, Prod.mk.injEq] at h
      obtain ⟨-, rfl, rfl⟩ := h
      exact ⟨[], rfl⟩

theorem Kept.read (h : s.Kept) (c : ℕ) : (s.read c).Kept := by
  unfold Shell.read
  cases hnext : nextLine (s.children c).stdin with
  | none => exact h
  | some next =>
    obtain ⟨interrupted, command, rest⟩ := next
    refine h.setChild id ?_ ?_ ?_
    · intro hlast
      obtain ⟨front, hfront⟩ := nextLine_spec hnext
      unfold Child.Interrupted at hlast ⊢
      rw [hfront] at hlast
      cases rest with
      | nil =>
        rw [List.getLast?_concat] at hlast
        cases hlast
      | cons input rest => simpa using hlast
    · rintro - ⟨hempty, -⟩
      rw [hempty] at hnext
      cases hnext
    · rintro running - rfl ⟨hmarkers, earlier, hleft, hseen, hunread | hread⟩
      · obtain ⟨hline, -, hearlier⟩ := hunread
        rw [hline, nextLine] at hnext
        simp only [Option.some.injEq, Prod.mk.injEq] at hnext
        obtain ⟨rfl, rfl, rfl⟩ := hnext
        refine ⟨hmarkers, earlier, hleft, hseen, Or.inr ⟨rfl, rfl, ?_⟩⟩
        rw [← List.append_assoc, hearlier]
      · rw [hread.1] at hnext
        cases hnext

theorem Kept.kill (h : s.Kept) (c : ℕ) : (s.kill c).Kept := by
  refine h.setChild (fun halive => absurd halive.1 Bool.true_eq_false_eq_False) id (fun _ => id)
    fun _ _ _ => id

theorem Kept.spawn (h : s.Kept) (hrun : s.running = none) : s.spawn.Kept := by
  have hold : ∀ e ∈ s.settled, s.spawn.children e.running.child = s.children e.running.child := by
    intro e he
    have hlt := h.recorded e he
    exact (children_setChild _ _ _).trans (if_neg (by omega))
  have hidle : s.spawn.running = none := hrun
  refine ⟨?_, ?_, ?_, ?_, ?_, ?_, ?_⟩
  · intro c hc
    cases hc
    exact Nat.lt_succ_self _
  · intro running hrunning
    rw [hidle] at hrunning
    cases hrunning
  · intro e he
    exact Nat.lt_succ_of_lt (h.recorded e he)
  · intro _ c hc _
    cases hc
    have hfresh : s.spawn.children s.spawned = ⟨false, false, false, [], []⟩ :=
      children_setChild_self _ _
    rw [hfresh]
    exact Or.inr ⟨rfl, rfl, Or.inl rfl⟩
  · intro running hrunning
    rw [hidle] at hrunning
    cases hrunning
  · intro running hrunning
    rw [hidle] at hrunning
    cases hrunning
  · intro e he hquiet halive
    rw [hold e he] at halive
    exact h.results e he hquiet halive

/-- The child that a command is started on is not killed and has no interrupt in its input. -/
theorem ensureStarted_spec (h : s.Kept) (hrun : s.running = none)
    {c : ℕ} {t : Shell} (hstart : s.ensureStarted = (c, t)) :
    t.Kept ∧ t.running = none ∧ t.child = some c ∧ (t.children c).killed = false ∧
      ((∀ d, s.child = some d → (s.children d).killed = false →
          ∀ input ∈ (s.children d).stdin, input ≠ .interrupt) →
        ∀ input ∈ (t.children c).stdin, input ≠ .interrupt) := by
  have hspawned : s.spawn.Kept ∧ s.spawn.running = none ∧ s.spawn.child = some s.spawned ∧
      (s.spawn.children s.spawned).killed = false ∧
      ∀ input ∈ (s.spawn.children s.spawned).stdin, input ≠ .interrupt := by
    have hfresh : s.spawn.children s.spawned = ⟨false, false, false, [], []⟩ :=
      children_setChild_self _ _
    rw [hfresh]
    exact ⟨h.spawn hrun, hrun, rfl, rfl, fun _ hinput => absurd hinput List.not_mem_nil⟩
  obtain ⟨hkept, hidle, hchild, hkilled, hinput⟩ := hspawned
  unfold ensureStarted at hstart
  cases hslot : s.child with
  | none =>
    rw [hslot] at hstart
    cases hstart
    exact ⟨hkept, hidle, hchild, hkilled, fun _ => hinput⟩
  | some d =>
    rw [hslot] at hstart
    dsimp only at hstart
    split_ifs at hstart with hdead
    · cases hstart
      exact ⟨hkept, hidle, hchild, hkilled, fun _ => hinput⟩
    · cases hstart
      rw [Bool.not_eq_true] at hdead
      exact ⟨h, hrun, hslot, hdead, fun hall => hall c rfl hdead⟩

/-- An interrupt stays in the input of the child that has it. -/
theorem Kept.interrupt (h : s.Kept) {running : Running} (hchild : s.child = some running.child)
    (hdisturbed : ¬ running.Undisturbed) : (s.interrupt graceMs running).Kept := by
  have hschedule : (scheduleHardStop graceMs running).child = running.child ∧
      ((scheduleHardStop graceMs running).Undisturbed ↔ running.Undisturbed) := by
    unfold scheduleHardStop
    split_ifs <;> exact ⟨rfl, Iff.rfl⟩
  have hslot : s.interruptCurrentCommand = if (s.children running.child).killed then s
      else s.write running.child .interrupt := by
    unfold interruptCurrentCommand
    rw [hchild]
  have hsame : s.interruptCurrentCommand.spawned = s.spawned ∧
      s.interruptCurrentCommand.child = s.child ∧
      s.interruptCurrentCommand.settled = s.settled := by
    rw [hslot]
    split_ifs <;> exact ⟨rfl, rfl, rfl⟩
  have hlive : ∀ d, (s.interruptCurrentCommand.children d).Alive ↔ (s.children d).Alive := by
    intro d
    rw [hslot]
    split_ifs with hkilled
    · exact Iff.rfl
    · unfold write
      rw [children_setChild]
      split_ifs with heq
      · subst heq
        exact Iff.rfl
      · exact Iff.rfl
  obtain ⟨hspawned, hkeeps, hsettled⟩ := hsame
  refine ⟨?_, ?_, ?_, ?_, ?_, ?_, ?_⟩
  · intro c hc
    change s.interruptCurrentCommand.child = some c at hc
    change c < s.interruptCurrentCommand.spawned
    rw [hspawned]
    exact h.born c (hkeeps ▸ hc)
  · rintro r hr
    cases hr
    change s.interruptCurrentCommand.child = _
    rw [hkeeps, hschedule.1, hchild]
  · intro e he
    change e.running.child < s.interruptCurrentCommand.spawned
    rw [hspawned]
    exact h.recorded e (hsettled ▸ he)
  · intro hnone
    cases hnone
  · rintro r hr - halive
    cases hr
    rw [hschedule.1] at halive ⊢
    change (s.interruptCurrentCommand.children _).Alive at halive
    change (s.interruptCurrentCommand.children _).Interrupted
    have hkilled := ((hlive _).mp halive).1
    rw [hslot, hkilled]
    change ((s.write running.child .interrupt).children running.child).Interrupted
    unfold write
    rw [children_setChild, if_pos rfl]
    exact List.getLast?_concat
  · rintro r hr hquiet
    cases hr
    exact absurd (hschedule.2.mp hquiet) hdisturbed
  · intro e he hquiet halive
    exact h.results e (hsettled ▸ he) hquiet ((hlive _).mp halive)

theorem Kept.execOne (h : s.Kept) (hrun : s.running = none) {command : Command} {aborted : Bool}
    (horderly : s.Orderly (.exec command aborted)) :
    (s.execOne graceMs command aborted).Kept := by
  obtain ⟨hmarkers, hclear⟩ := horderly
  unfold Shell.execOne
  cases hstart : s.ensureStarted with
  | mk c t =>
    obtain ⟨hkept, hidle, hchild, hkilled, hinput⟩ := ensureStarted_spec h hrun hstart
    dsimp only
    split_ifs with hflag
    · refine hkept.interrupt hchild fun hquiet => ?_
      have hnot : aborted = false := hquiet.1
      rw [hflag] at hnot
      cases hnot
    · have hempty := hinput (hclear (by simpa using hflag))
      refine ⟨hkept.born, ?_, hkept.recorded, ?_, ?_, ?_, ?_⟩
      · intro running hrunning
        cases hrunning
        exact hchild
      · intro hnone
        cases hnone
      · intro running hrunning hdisturbed
        cases hrunning
        exact absurd ⟨by simpa using hflag, rfl⟩ hdisturbed
      · intro running hrunning _ halive
        cases hrunning
        change ((t.write c (.line command)).children c).Alive at halive
        change ((t.write c (.line command)).children c).Streams _
        unfold write at halive ⊢
        rw [children_setChild, if_pos rfl] at halive ⊢
        rcases hkept.rested hidle c hchild halive with hlast | ⟨hstdin, hbusy, hleft⟩
        · exact absurd rfl (hempty .interrupt (List.mem_of_getLast? hlast))
        · refine ⟨hmarkers, (t.children c).stdout, hleft, List.nil_prefix, Or.inl ⟨?_, hbusy, rfl⟩⟩
          change (t.children c).stdin ++ [_] = _
          rw [hstdin]
          rfl
      · intro e he hquiet halive
        change ((t.setChild c _).children _).Alive at halive
        refine hkept.results e he hquiet (alive_setChild ?_ halive)
        exact id

/-- The command has its result, and what is left on its child is what the next one may find. -/
theorem Kept.settle (h : s.Kept) {running other : Running} (hrun : s.running = some running)
    (hchild : other.child = running.child) {child : Child} {result : Result}
    (halive : child.Alive → (s.children running.child).Alive)
    (hinterrupted : (s.children running.child).Interrupted → child.Interrupted)
    (hrested : running.Undisturbed → child.Alive → child.Rested)
    (hresult : other.Undisturbed → child.Alive → ∃ n, other.command.exitCode = some n ∧
      result = .resolved n (normalise (other.command.output ++ ['\n']))) :
    ((s.setChild running.child child).settle other result).Kept := by
  have hself : (s.setChild running.child child).children running.child = child :=
    children_setChild_self _ _
  refine ⟨h.born, ?_, ?_, ?_, ?_, ?_, ?_⟩
  · intro r hr
    cases hr
  · intro e he
    rcases List.mem_append.mp he with he | he
    · exact h.recorded e he
    · rw [List.mem_singleton.mp he]
      change other.child < s.spawned
      rw [hchild]
      exact h.born _ (h.owner running hrun)
  · intro _ c hc hlives
    change s.child = some c at hc
    change ((s.setChild running.child child).children c).Alive at hlives
    change ((s.setChild running.child child).children c).Interrupted ∨
      ((s.setChild running.child child).children c).Rested
    rw [h.owner running hrun] at hc
    cases hc
    rw [hself] at hlives ⊢
    by_cases hundisturbed : running.Undisturbed
    · exact Or.inr (hrested hundisturbed hlives)
    · exact Or.inl (hinterrupted (h.interrupted running hrun hundisturbed (halive hlives)))
  · intro r hr
    cases hr
  · intro r hr
    cases hr
  · intro e he hundisturbed hlives
    rcases List.mem_append.mp he with he | he
    · exact h.results e he hundisturbed (alive_setChild halive hlives)
    · rw [List.mem_singleton.mp he] at hundisturbed hlives ⊢
      change ((s.setChild running.child child).children other.child).Alive at hlives
      rw [hchild, hself] at hlives
      exact hresult hundisturbed hlives

/-- Bytes that reach no command. -/
theorem Kept.drop (h : s.Kept) (hrun : s.running = none) (c k : ℕ) :
    (s.setChild c { s.children c with stdout := (s.children c).stdout.drop k }).Kept := by
  refine h.setChild id id (fun _ hrested => ⟨hrested.1, hrested.2.1, hrested.2.2.drop k⟩) ?_
  intro running hrunning
  rw [hrun] at hrunning
  cases hrunning

/-- The bytes that have arrived with one more chunk are too few, or give the result. -/
theorem streams_deliver {child : Child} {running : Running} {k : ℕ}
    (h : child.Streams running)
    (hwhole : ¬ SplitsCode running.command.unique
      (running.stdoutChunks.flatten ++ child.stdout.take k) (child.stdout.drop k)) :
    (parseDelimitedShellOutput (decode (running.stdoutChunks ++ [child.stdout.take k]).flatten)
        (startMarker running.command.unique) (endMarker running.command.unique) = none ∧
      Child.Streams { child with stdout := child.stdout.drop k }
        { running with stdoutChunks := running.stdoutChunks ++ [child.stdout.take k] }) ∨
    ∃ n, running.command.exitCode = some n ∧
      parseDelimitedShellOutput (decode (running.stdoutChunks ++ [child.stdout.take k]).flatten)
        (startMarker running.command.unique) (endMarker running.command.unique) =
          some (normalise (running.command.output ++ ['\n']), (n : ℤ)) ∧
      Leftover (child.stdout.drop k) ∧ child.stdin = [] ∧ child.busy = false := by
  obtain ⟨hmarkers, earlier, hleft, -, hplace⟩ := h
  have hseen : (running.stdoutChunks ++ [child.stdout.take k]).flatten =
      running.stdoutChunks.flatten ++ child.stdout.take k := by simp
  have htotal : (running.stdoutChunks.flatten ++ child.stdout.take k) ++ child.stdout.drop k =
      running.stdoutChunks.flatten ++ child.stdout := by
    rw [List.append_assoc, List.take_append_drop]
  have hopen : running.stdoutChunks.flatten ++ child.stdout.take k <+:
        earlier ++ commandBytes running.command.unique running.command.output →
      parseDelimitedShellOutput (decode (running.stdoutChunks ++ [child.stdout.take k]).flatten)
          (startMarker running.command.unique) (endMarker running.command.unique) = none ∧
        Child.Streams { child with stdout := child.stdout.drop k }
          { running with stdoutChunks := running.stdoutChunks ++ [child.stdout.take k] } := by
    intro hfront
    refine ⟨?_, hmarkers, earlier, hleft, ?_, ?_⟩
    · rw [hseen]
      exact parse_leftover hleft hmarkers.2 hfront
    · change (running.stdoutChunks ++ [child.stdout.take k]).flatten <+: _
      rw [hseen]
      exact hfront
    · change _ ∧ _ ∧ (running.stdoutChunks ++ [child.stdout.take k]).flatten ++ _ = _ ∨
        _ ∧ _ ∧ (running.stdoutChunks ++ [child.stdout.take k]).flatten ++ _ = _
      rw [hseen, htotal]
      exact hplace
  rcases hplace with ⟨-, -, hearlier⟩ | ⟨hstdin, hbusy, hread⟩
  · refine Or.inl (hopen ?_)
    have hfront : running.stdoutChunks.flatten ++ child.stdout.take k <+: earlier := by
      rw [← hearlier, ← htotal]
      exact List.prefix_append _ _
    exact hfront.trans (List.prefix_append _ _)
  · have hstream : running.stdoutChunks.flatten ++ child.stdout.take k <+:
        earlier ++ lineOutput false running.command := by
      rw [← hread, ← htotal]
      exact List.prefix_append _ _
    cases hcode : running.command.exitCode with
    | none =>
      refine Or.inl (hopen (hstream.trans ?_))
      exact (List.prefix_append_right_inj _).mpr (lineOutput_open hcode)
    | some n =>
      rw [lineOutput_ends hcode, ← htotal] at hread
      rcases parse_stream hleft hmarkers.1 hmarkers.2 hread hwhole with hfront | ⟨hparse, hrest⟩
      · exact Or.inl (hopen hfront)
      · rw [hcode] at hbusy
        exact Or.inr ⟨n, rfl, by rw [hseen]; exact hparse, hrest, hstdin, hbusy⟩

/-- The running command goes on after a chunk. -/
theorem Kept.receive (h : s.Kept) {running : Running} (hrun : s.running = some running) {k : ℕ}
    (hstreams : running.Undisturbed → (s.children running.child).Alive →
      Child.Streams { s.children running.child with
          stdout := (s.children running.child).stdout.drop k }
        { running with stdoutChunks := running.stdoutChunks ++
          [(s.children running.child).stdout.take k] }) :
    Kept { s.setChild running.child { s.children running.child with
        stdout := (s.children running.child).stdout.drop k } with
      running := some { running with stdoutChunks := running.stdoutChunks ++
        [(s.children running.child).stdout.take k] } } := by
  have hself : (s.setChild running.child { s.children running.child with
      stdout := (s.children running.child).stdout.drop k }).children running.child =
      { s.children running.child with stdout := (s.children running.child).stdout.drop k } :=
    children_setChild_self _ _
  refine ⟨h.born, ?_, h.recorded, ?_, ?_, ?_, ?_⟩
  · intro r hr
    cases hr
    exact h.owner running hrun
  · intro hnone
    cases hnone
  · intro r hr hdisturbed halive
    cases hr
    change ((s.setChild _ _).children running.child).Alive at halive
    change ((s.setChild _ _).children running.child).Interrupted
    rw [hself] at halive ⊢
    exact h.interrupted running hrun hdisturbed halive
  · intro r hr hquiet halive
    cases hr
    change ((s.setChild _ _).children running.child).Alive at halive
    change ((s.setChild _ _).children running.child).Streams _
    rw [hself] at halive ⊢
    exact hstreams hquiet halive
  · intro e he hquiet halive
    change ((s.setChild running.child _).children _).Alive at halive
    refine h.results e he hquiet (alive_setChild ?_ halive)
    exact id

theorem handleStdout_idle (h : s.running = none) (chunk : Bytes) : s.handleStdout chunk = s := by
  unfold handleStdout
  rw [h]

/-- The command goes on. -/
theorem handleStdout_open {running : Running} (h : s.running = some running) {chunk : Bytes}
    (hparse : parseDelimitedShellOutput (decode (running.stdoutChunks ++ [chunk]).flatten)
      (startMarker running.command.unique) (endMarker running.command.unique) = none) :
    s.handleStdout chunk = { s with
      running := some { running with stdoutChunks := running.stdoutChunks ++ [chunk] } } := by
  unfold handleStdout
  rw [h]
  dsimp only
  rw [hparse]

theorem handleStdout_done {running : Running} (h : s.running = some running) {chunk : Bytes}
    {output : Text} {exitCode : ℤ}
    (hparse : parseDelimitedShellOutput (decode (running.stdoutChunks ++ [chunk]).flatten)
      (startMarker running.command.unique) (endMarker running.command.unique) =
        some (output, exitCode)) :
    s.handleStdout chunk = s.settle { running with stdoutChunks := running.stdoutChunks ++ [chunk] }
      (outcome { running with stdoutChunks := running.stdoutChunks ++ [chunk] }
        (.resolved exitCode output)) := by
  unfold handleStdout
  rw [h]
  dsimp only
  rw [hparse]

/-- A chunk of the running command's child. -/
theorem Kept.data (h : s.Kept) {c k : ℕ} (horderly : s.Orderly (.data c k)) :
    (s.data c k).Kept := by
  unfold Shell.data
  cases hrun : s.running with
  | none =>
    rw [handleStdout_idle (show (s.setChild c _).running = none from hrun)]
    exact h.drop hrun c k
  | some running =>
    obtain ⟨hslot, hwhole⟩ := horderly running hrun
    have howner := h.owner running hrun
    rw [hslot] at howner
    cases howner
    cases hparse : parseDelimitedShellOutput
        (decode (running.stdoutChunks ++ [(s.children running.child).stdout.take k]).flatten)
        (startMarker running.command.unique) (endMarker running.command.unique) with
    | none =>
      rw [handleStdout_open (show (s.setChild _ _).running = some running from hrun) hparse]
      refine h.receive hrun fun hquiet halive => ?_
      rcases streams_deliver (h.streams running hrun hquiet halive) hwhole with
        hmore | ⟨n, -, hend, -⟩
      · exact hmore.2
      · rw [hparse] at hend
        cases hend
    | some parsed =>
      obtain ⟨output, exitCode⟩ := parsed
      rw [handleStdout_done (show (s.setChild _ _).running = some running from hrun) hparse]
      have hdone : running.Undisturbed → (s.children running.child).Alive → ∃ n,
          running.command.exitCode = some n ∧ (output, exitCode) =
            (normalise (running.command.output ++ ['\n']), (n : ℤ)) ∧
          Leftover ((s.children running.child).stdout.drop k) ∧
          (s.children running.child).stdin = [] ∧ (s.children running.child).busy = false := by
        intro hquiet halive
        rcases streams_deliver (h.streams running hrun hquiet halive) hwhole with
          hmore | ⟨n, hn, hend, hleft⟩
        · rw [hparse] at hmore
          cases hmore.1
        · rw [hparse] at hend
          exact ⟨n, hn, Option.some.inj hend, hleft⟩
      apply h.settle hrun
      · rfl
      · exact id
      · exact id
      · intro hquiet halive
        obtain ⟨-, -, -, hleft, hstdin, hbusy⟩ := hdone hquiet halive
        exact ⟨hstdin, hbusy, hleft⟩
      · intro hquiet halive
        obtain ⟨n, hn, hparsed, -⟩ := hdone hquiet halive
        cases hparsed
        refine ⟨n, hn, ?_⟩
        unfold outcome
        rw [hquiet.1, hquiet.2]
        rfl

theorem close_idle (h : s.running = none) (c : ℕ) :
    s.close c = { s.setChild c { s.children c with closed := true } with child := none } := by
  unfold Shell.close
  have hsame : (s.setChild c { s.children c with closed := true }).running = none := h
  dsimp only
  rw [hsame]

theorem close_running {running : Running} (h : s.running = some running) (c : ℕ) :
    s.close c = { (s.setChild c { s.children c with closed := true }).settle running
      (outcome running .closed) with child := none } := by
  unfold Shell.close
  have hsame : (s.setChild c { s.children c with closed := true }).running = some running := h
  dsimp only
  rw [hsame]

/-- A shell that has neither a child nor a running command; what it has settled since is of a
child that is not alive. -/
theorem Kept.ended (h : s.Kept) {t : Shell} (hchild : t.child = none) (hrun : t.running = none)
    (hspawned : t.spawned = s.spawned)
    (halive : ∀ d, (t.children d).Alive → (s.children d).Alive)
    (hsettled : ∀ e ∈ t.settled, e ∈ s.settled ∨
      e.running.child < s.spawned ∧ ¬ (t.children e.running.child).Alive) : t.Kept where
  born c hc := by
    rw [hchild] at hc
    cases hc
  owner running hrunning := by
    rw [hrun] at hrunning
    cases hrunning
  recorded e he := by
    rw [hspawned]
    exact (hsettled e he).elim (h.recorded e) And.left
  rested _ c hc := by
    rw [hchild] at hc
    cases hc
  interrupted running hrunning := by
    rw [hrun] at hrunning
    cases hrunning
  streams running hrunning := by
    rw [hrun] at hrunning
    cases hrunning
  results e he hquiet hlives := by
    rcases hsettled e he with hold | ⟨-, hdead⟩
    · exact h.results e hold hquiet (halive _ hlives)
    · exact absurd hlives hdead

theorem Kept.close (h : s.Kept) {c : ℕ} (horderly : s.Orderly (.close c)) :
    (s.close c).Kept := by
  have hlive : ∀ d, ((s.setChild c { s.children c with closed := true }).children d).Alive →
      (s.children d).Alive ∧ d ≠ c := by
    intro d hd
    rw [children_setChild] at hd
    split_ifs at hd with heq
    · cases hd.2
    · exact ⟨hd, heq⟩
  cases hrun : s.running with
  | none =>
    rw [close_idle hrun]
    exact h.ended rfl hrun rfl (fun d hd => (hlive d hd).1) fun e he => Or.inl he
  | some running =>
    have hslot := horderly (by rw [hrun]; rfl)
    rw [h.owner running hrun] at hslot
    cases hslot
    rw [close_running hrun]
    refine h.ended rfl rfl rfl (fun d hd => (hlive d hd).1) ?_
    intro e he
    rcases List.mem_append.mp he with he | he
    · exact Or.inl he
    · rw [List.mem_singleton.mp he]
      exact Or.inr ⟨h.born _ (h.owner running hrun), fun hd => (hlive _ hd).2 rfl⟩

/-- The child in the slot is killed. -/
theorem Kept.hardStop (h : s.Kept) : s.hardStop.Kept ∧ s.hardStop.running = s.running ∧
    s.hardStop.child = s.child ∧ s.hardStop.spawned = s.spawned ∧
    s.hardStop.settled = s.settled ∧
    ∀ c, s.child = some c → ¬ (s.hardStop.children c).Alive := by
  unfold Shell.hardStop
  cases hslot : s.child with
  | none => exact ⟨h, rfl, hslot, rfl, rfl, fun c hc => by cases hc⟩
  | some c =>
    refine ⟨h.kill c, rfl, hslot, rfl, rfl, fun d hd halive => ?_⟩
    cases hd
    change ((s.setChild c _).children c).Alive at halive
    rw [children_setChild, if_pos rfl] at halive
    cases halive.1

theorem Kept.dispose (h : s.Kept) : s.dispose.Kept := by
  obtain ⟨hkept, hidle, -, hspawned, hsettled, hdead⟩ := h.hardStop
  unfold Shell.dispose
  cases hrun : s.running with
  | none => exact hkept.ended rfl (hidle.trans hrun) rfl (fun _ hd => hd) fun e he => Or.inl he
  | some running =>
    have howner := h.owner running hrun
    have hstop : (s.settle running .disposed).hardStop = { s.hardStop with
        running := none
        settled := s.settled ++ [⟨running, .disposed⟩] } := by
      have hkill : ∀ t : Shell, t.child = some running.child →
          t.hardStop = t.kill running.child := by
        intro t ht
        unfold Shell.hardStop
        rw [ht]
      rw [hkill s howner, hkill (s.settle running .disposed) howner]
      rfl
    dsimp only
    rw [hstop]
    refine hkept.ended rfl rfl rfl (fun _ hd => hd) ?_
    intro e he
    rcases List.mem_append.mp he with he | he
    · exact Or.inl (hsettled ▸ he)
    · rw [List.mem_singleton.mp he, hspawned]
      exact Or.inr ⟨h.born _ howner, hdead _ howner⟩

theorem Kept.step (h : s.Kept) {event : Event} (horderly : s.Orderly event) :
    (s.step graceMs event).Kept := by
  cases event with
  | exec command aborted =>
    unfold Shell.step
    dsimp only
    split_ifs with hbusy
    · exact h
    · rw [not_or, Option.not_isSome_iff_eq_none] at hbusy
      exact h.execOne hbusy.2 horderly
  | abort =>
    unfold Shell.step
    cases hrun : s.running with
    | none => exact h
    | some running =>
      exact h.interrupt (h.owner running hrun) fun hquiet => by cases hquiet.1
  | timeout =>
    unfold Shell.step
    cases hrun : s.running with
    | none => exact h
    | some running =>
      dsimp only
      split_ifs with htimed
      · exact h
      · exact h.interrupt (h.owner running hrun) fun hquiet => by cases hquiet.2
  | hardStop =>
    unfold Shell.step
    cases hrun : s.running with
    | none => exact h
    | some running =>
      dsimp only
      split_ifs with harmed
      · obtain ⟨hkept, -, hslot, -, -, hdead⟩ := h.hardStop
        have howner := h.owner running hrun
        refine ⟨hkept.born, ?_, hkept.recorded, ?_, ?_, ?_, hkept.results⟩
        · intro r hr
          cases hr
          exact hslot.trans howner
        · intro hnone
          cases hnone
        · intro r hr _ halive
          cases hr
          exact absurd halive (hdead _ howner)
        · intro r hr _ halive
          cases hr
          exact absurd halive (hdead _ howner)
      · exact h
  | read c =>
    unfold Shell.step
    dsimp only
    split_ifs
    · exact h.read c
    · exact h
  | data c k =>
    unfold Shell.step
    dsimp only
    split_ifs
    · exact h.data horderly
    · exact h
  | close c =>
    unfold Shell.step
    dsimp only
    split_ifs
    · exact h.close horderly
    · exact h
  | dispose => exact h.dispose

theorem Kept.run (h : s.Kept) {events : List Event} (horderly : s.OrderlyRun graceMs events) :
    (s.run graceMs events).Kept := by
  induction events generalizing s with
  | nil => exact h
  | cons event events ih => exact ih (h.step horderly.1) horderly.2

theorem Kept.ownResults (h : s.Kept) : s.OwnResults := by
  refine ⟨h.results, fun running hrun hquiet halive hends => ?_⟩
  obtain ⟨n, hn⟩ := Option.isSome_iff_exists.mp hends
  obtain ⟨-, earlier, -, hseen, ⟨hline, hbusy, -⟩ | ⟨-, -, hread⟩⟩ :=
    h.streams running hrun hquiet halive
  · refine Or.inr ⟨hbusy, ?_⟩
    rw [hline]
    rfl
  · refine Or.inl fun hempty => ?_
    rw [lineOutput_ends hn, hempty, List.append_nil] at hread
    rw [hread] at hseen
    have hlength := hseen.length_le
    unfold printed at hlength
    simp only [List.length_append, List.length_singleton] at hlength
    omega

/-- In every orderly run each undisturbed command on a live child has its own result, and until
then the child still has something to do for it. -/
theorem own_results {graceMs : ℕ} {events : List Event}
    (h : initial.OrderlyRun graceMs events) : (initial.run graceMs events).OwnResults :=
  (kept_initial.run h).ownResults

def sampleCommand : Command := ⟨sampleUnique, [], some 12⟩

/-- One command, its child's whole answer in one chunk, and an abort that finds nothing running. -/
theorem own_results_sample : (initial.run 500 [.exec sampleCommand false, .read 0,
    .data 0 (lineOutput false sampleCommand).length, .abort]).OwnResults := by
  refine own_results ⟨⟨⟨by decide +kernel, by decide +kernel⟩, ?_⟩, trivial, ?_, trivial, trivial⟩
  · rintro - c hc
    cases hc
  · intro running hrun
    cases hrun
    refine ⟨rfl, ?_⟩
    rintro ⟨front, digits, -, -, -, d, more, hrest, -⟩
    have hnil : (lineOutput false sampleCommand).drop
        (lineOutput false sampleCommand).length = [] := List.drop_length
    cases hnil.symm.trans hrest

end Shell

end Invariant

end PersistentShell
end Piclaw
