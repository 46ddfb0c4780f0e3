import Campagnol.Client.Checksum
import Campagnol.Config.Numbers

/-!
# The commands of the TUN device

The shell commands that are run when the TUN device is opened and closed
(`client/tun_device_common.c`). `replace_args` replaces the special variables of a command:

* `substitute`: a command with its variables replaced, from left to right;
* `replaceArgs_eq`: what `replace_args` does for every command. It looks for the letter of a
  variable after every `%`, and a `%` that is the last character of the command makes it go past
  the end.
-/

namespace Campagnol
namespace Client

open Config

/-! ## Formatting -/

abbrev percent : UInt8 := 37
/-- The character `'`. -/
abbrev apostrophe : UInt8 := 39
abbrev minus : UInt8 := 45
abbrev dot : UInt8 := 46

/-- A literal of the source. -/
def ascii (s : String) : Bytes := s.toList.map fun c => UInt8.ofNat c.toNat

/-- `%d`. -/
def formatInt (x : Int) : Bytes :=
  if x = 0 then ascii "0" else if x < 0 then minus :: decimal x.natAbs else decimal x.natAbs

/-- `'%s'`. -/
def quoted (s : CString) : Bytes := apostrophe :: s.bytes ++ [apostrophe]

/-- `inet_ntoa`. -/
def inetNtoa (a : InAddr) : Bytes :=
  List.intercalate [dot] ((addrBytes a).map fun b => formatInt b.toNat)

/-! ## `replace_args` -/

/-- The options of the client that are used for the commands. `parseConfFile` refuses a
configuration without `network`. The commands are `none` when the default ones are used. -/
structure CommandOptions where
  localIP : InAddr
  localport : UInt16
  vpnIP : InAddr
  vpnNetmask : InAddr
  network : CString
  tunMtu : Int
  execUp : Option (List CString)
  execDown : Option (List CString)
deriving DecidableEq, Repr

/-- The cases of the character after a `%`. -/
def appendArg (config : CommandOptions) (device : CString) (sb : StrBuf) (c : UInt8) : StrBuf :=
  match c with
  | 37 => sb.push percent -- %
  | 68 => sb.append (quoted device) -- D
  | 86 => sb.append (inetNtoa config.vpnIP) -- V
  | 77 => sb.append (formatInt config.tunMtu) -- M
  | 78 => sb.append (quoted config.network) -- N
  | 110 => sb.append (inetNtoa config.vpnNetmask) -- n
  | 80 => sb.append (formatInt config.localport.toNat) -- P
  | 73 => sb.append (inetNtoa config.localIP) -- I
  | c => (sb.push percent).push c

/-- `s[i]`, where the string ends with its NUL. There is nothing to read after it. -/
def charAt (s : CString) (i : ℕ) : Option UInt8 := (s.bytes ++ [0])[i]?

/-- How far `replace_args` has come: `overrun` when it has read a character after the end. -/
inductive Replacing where
  | running (src : ℕ) (sb : StrBuf)
  | overrun
  | done (sb : StrBuf)
deriving DecidableEq, Repr

/-- The loop of `replace_args`, at most `n` times round. -/
def replaceLoop (config : CommandOptions) (device s : CString) : ℕ → ℕ → StrBuf → Replacing
  | 0, src, sb => .running src sb
  | n + 1, src, sb =>
    match charAt s src with
    | none => .overrun
    | some c =>
      if c = 0 then .done sb
      else if c = percent then
        match charAt s (src + 1) with
        | none => .overrun
        -- two characters are skipped, even when the second one is the NUL
        | some d => replaceLoop config device s n (src + 2) (appendArg config device sb d)
      else replaceLoop config device s n (src + 1) (sb.push c)

/-- `replace_args`. -/
def replaceArgs (config : CommandOptions) (s device : CString) : Replacing :=
  replaceLoop config device s (s.bytes.length + 2) 0 StrBuf.reset

/-! ## Running the commands -/

/-- The systems that have a `tun_device_*.c`. -/
inductive Platform where
  | linux | freebsd | netbsd | openbsd | cygwin
deriving DecidableEq, Repr

/-- `tun_default_up`. -/
def tunDefaultUp : Platform → List CString
  | .linux =>
    [cstr (ascii "ifconfig %D %V mtu %M up"),
      cstr (ascii "ip route replace %N via %V || route add -net %N gw %V")]
  | .freebsd | .netbsd =>
    [cstr (ascii "ifconfig %D inet %V %V mtu %M up"), cstr (ascii "route add -net %N %V")]
  | .openbsd => [cstr (ascii "ifconfig %D inet %V %V up"), cstr (ascii "route add -net %N %V")]
  | .cygwin => [cstr (ascii "netsh interface ip set address name=%D static %V %n none")]

/-- `tun_default_down`. -/
def tunDefaultDown : Platform → List CString
  | .freebsd | .netbsd => [cstr (ascii "ifconfig %D destroy")]
  | .linux | .openbsd | .cygwin => []

/-- `exec_internal`: the commands that are given to `system`, or `none` when a command has been
read past its end. -/
def execInternal (config : CommandOptions) (device : CString) : List CString → Option (List CString)
  | [] => some []
  | program :: programs =>
    match replaceArgs config program device with
    | .done sb => (execInternal config device programs).map (cstr sb.s :: ·)
    | _ => none

/-- `exec_up`. -/
def execUp (platform : Platform) (config : CommandOptions) (device : CString) :
    Option (List CString) :=
  match config.execUp with
  | some programs => execInternal config device programs
  | none => execInternal config device (tunDefaultUp platform)

/-- `exec_down`. -/
def execDown (platform : Platform) (config : CommandOptions) (device : CString) :
    Option (List CString) :=
  match config.execDown with
  | some programs => execInternal config device programs
  | none => execInternal config device (tunDefaultDown platform)

/-! ## What the commands mean -/

/-- The special variables. -/
inductive SpecialVariable where
  | device | vpnIP | tunMtu | network | vpnNetmask | localport | localIP
deriving DecidableEq, Repr

namespace SpecialVariable

/-- The letter of a variable. -/
def letter : SpecialVariable → Char
  | device => 'D'
  | vpnIP => 'V'
  | tunMtu => 'M'
  | network => 'N'
  | vpnNetmask => 'n'
  | localport => 'P'
  | localIP => 'I'

/-- The value of a variable. Names are written as words of the shell. -/
def value (config : CommandOptions) (dev : CString) : SpecialVariable → Bytes
  | device => quoted dev
  | vpnIP => inetNtoa config.vpnIP
  | tunMtu => formatInt config.tunMtu
  | network => quoted config.network
  | vpnNetmask => inetNtoa config.vpnNetmask
  | localport => formatInt config.localport.toNat
  | localIP => inetNtoa config.localIP

def all : List SpecialVariable := [device, vpnIP, tunMtu, network, vpnNetmask, localport, localIP]

/-- The variable of a letter. -/
def ofLetter (c : UInt8) : Option SpecialVariable := all.find? fun v => v.letter.toNat = c.toNat

end SpecialVariable

/-- What stands for `%` and the character after it. -/
def replacement (config : CommandOptions) (device : CString) (c : UInt8) : Bytes :=
  if c = percent then [percent]
  else
    match SpecialVariable.ofLetter c with
    | some v => v.value config device
    | none => [percent, c]

/-- The command with its variables replaced. -/
def substitute (config : CommandOptions) (device : CString) : Bytes → Bytes
  | [] => []
  | [c] => [c]
  | c :: d :: s =>
    if c = percent then replacement config device d ++ substitute config device s
    else c :: substitute config device (d :: s)

/-- The number of the `%` at the end of a command. -/
def percentRun (s : Bytes) : ℕ := (s.reverse.takeWhile (· = percent)).length

/-- The command ends in a `%` that is not the second one of `%%`. -/
def OpenPercent (s : Bytes) : Prop := percentRun s % 2 = 1

instance (s : Bytes) : Decidable (OpenPercent s) := inferInstanceAs (Decidable (_ = _))

section Replace
variable {config : CommandOptions} {device s : CString} {sb : StrBuf} {c d : UInt8} {t : Bytes}

theorem appendArg_eq : appendArg config device sb c = sb.append (replacement config device c) := by
  unfold appendArg
  split
  -- the default: no variable has this letter
  case h_9 h37 h68 h86 h77 h78 h110 h80 h73 =>
    have hnone : SpecialVariable.ofLetter c = none := by
      refine List.find?_eq_none.mpr fun v _ => ?_
      rw [decide_eq_true_eq]
      intro h
      have hc : c = UInt8.ofNat v.letter.toNat := by
        rw [h, UInt8.ofNat_toNat]
      cases v with
      | device => exact h68 hc
      | vpnIP => exact h86 hc
      | tunMtu => exact h77 hc
      | network => exact h78 hc
      | vpnNetmask => exact h110 hc
      | localport => exact h80 hc
      | localIP => exact h73 hc
    rw [replacement, if_neg h37, hnone, StrBuf.push, StrBuf.push, StrBuf.append,
      List.append_assoc]
    rfl
  all_goals rfl

/-! ## The end of a command -/

theorem percentRun_le (t : Bytes) : percentRun t ≤ t.length := by
  have h := (List.takeWhile_sublist (p := (· = percent)) (l := t.reverse)).length_le
  rwa [List.length_reverse] at h

theorem percentRun_cons : percentRun (c :: t) =
    if c = percent ∧ percentRun t = t.length then t.length + 1 else percentRun t := by
  rw [percentRun, List.reverse_cons, List.takeWhile_append, List.length_reverse, ← percentRun]
  by_cases hrun : percentRun t = t.length
  · by_cases hc : c = percent
    · simp [hrun, hc]
    · simp [hrun, hc]
  · rw [if_neg hrun, if_neg fun h => hrun h.2]
    rfl

theorem openPercent_cons (hc : c ≠ percent) : OpenPercent (c :: t) ↔ OpenPercent t := by
  rw [OpenPercent, OpenPercent, percentRun_cons, if_neg fun h => hc h.1]

/-- The character after a `%` is no end. -/
theorem openPercent_cons_cons : OpenPercent (percent :: d :: t) ↔ OpenPercent t := by
  have hle := percentRun_le t
  rw [OpenPercent, OpenPercent, percentRun_cons, List.length_cons]
  by_cases h : d = percent ∧ percentRun t = t.length
  · have hd : percentRun (d :: t) = t.length + 1 := by rw [percentRun_cons, if_pos h]
    have hrun := h.2
    rw [if_pos ⟨rfl, hd⟩]
    omega
  · have hd : percentRun (d :: t) = percentRun t := by rw [percentRun_cons, if_neg h]
    rw [hd, if_neg]
    rintro ⟨-, hrun⟩
    omega

/-! ## The loop -/

theorem charAt_append {pre : Bytes} (hs : s.bytes = pre ++ t) (i : ℕ) :
    charAt s (pre.length + i) = (t ++ [0])[i]? := by
  rw [charAt, hs, List.append_assoc, List.getElem?_append_right (by omega), Nat.add_sub_cancel_left]

section Round
variable {n src : ℕ}

theorem replaceLoop_nul (h : charAt s src = some 0) :
    replaceLoop config device s (n + 1) src sb = .done sb := by
  simp [replaceLoop, h]

theorem replaceLoop_overrun (h : charAt s src = none) :
    replaceLoop config device s (n + 1) src sb = .overrun := by
  simp [replaceLoop, h]

theorem replaceLoop_char (h : charAt s src = some c) (hc : c ≠ 0) (hp : c ≠ percent) :
    replaceLoop config device s (n + 1) src sb =
      replaceLoop config device s n (src + 1) (sb.append [c]) := by
  simp only [replaceLoop, h, hc, hp, if_false]
  rfl

theorem replaceLoop_percent (h : charAt s src = some percent) (hd : charAt s (src + 1) = some d) :
    replaceLoop config device s (n + 1) src sb =
      replaceLoop config device s n (src + 2) (sb.append (replacement config device d)) := by
  have hne : percent ≠ 0 := by decide
  simp only [replaceLoop, h, hd, hne, if_false, if_true, appendArg_eq]

end Round

/-- The loop from the rest `t` of the command on. -/
theorem replaceLoop_eq {n : ℕ} {pre : Bytes} (hs : s.bytes = pre ++ t) :
    replaceLoop config device s (n + t.length + 2) pre.length sb =
      if OpenPercent t then .overrun else .done (sb.append (substitute config device t)) := by
  -- over the rest of the command; `pre` has been read
  fun_induction substitute config device t generalizing n pre sb with
  | case1 =>
    have hchar : charAt s pre.length = some 0 := charAt_append hs 0
    rw [replaceLoop_nul hchar, if_neg (by decide), StrBuf.append_nil]
  | case2 c =>
    have hchar : charAt s pre.length = some c := charAt_append hs 0
    have hnul : charAt s (pre.length + 1) = some 0 := charAt_append hs 1
    by_cases hp : c = percent
    · -- the NUL is taken for a letter, and the loop goes on after it
      have hnone : charAt s (pre.length + 2) = none := charAt_append hs 2
      subst hp
      rw [if_pos (by decide), replaceLoop_percent hchar hnul, replaceLoop_overrun hnone]
    · have hc : c ≠ 0 := fun h => s.nul_free (by simp [hs, h])
      rw [if_neg (by rw [openPercent_cons hp]; decide), replaceLoop_char hchar hc hp,
        replaceLoop_nul hnul]
  | case3 d t ih =>
    have hchar : charAt s pre.length = some percent := charAt_append hs 0
    have hnext : charAt s (pre.length + 1) = some d := charAt_append hs 1
    have hrest : s.bytes = (pre ++ [percent, d]) ++ t := by simp [hs]
    have hsrc : pre.length + 2 = (pre ++ [percent, d]).length := by simp
    have hn : n + (percent :: d :: t).length + 1 = (n + 1) + t.length + 2 := by
      simp only [List.length_cons]
      omega
    rw [replaceLoop_percent hchar hnext, hsrc, hn, ih hrest]
    simp only [openPercent_cons_cons, StrBuf.append_append]
  | case4 c d t hp ih =>
    have hchar : charAt s pre.length = some c := charAt_append hs 0
    have hc : c ≠ 0 := fun h => s.nul_free (by simp [hs, h])
    have hrest : s.bytes = (pre ++ [c]) ++ d :: t := by simp [hs]
    have hsrc : pre.length + 1 = (pre ++ [c]).length := by simp
    have hn : n + (c :: d :: t).length + 1 = n + (d :: t).length + 2 := rfl
    rw [replaceLoop_char hchar hc hp, hsrc, hn, ih hrest]
    simp only [openPercent_cons hp, StrBuf.append_append, List.singleton_append]

/-- `replace_args` stops and gives the command with its variables replaced, or goes past its end. -/
theorem replaceArgs_eq (config : CommandOptions) (s device : CString) :
    replaceArgs config s device =
      if OpenPercent s.bytes then .overrun
      else .done (StrBuf.reset.append (substitute config device s.bytes)) := by
  have hs : s.bytes = [] ++ s.bytes := rfl
  have hloop : replaceLoop config device s (0 + s.bytes.length + 2) 0 StrBuf.reset = _ :=
    replaceLoop_eq hs
  rwa [Nat.zero_add] at hloop

/-- `replace_args` does what it is for when the command does not end in a `%` of its own. -/
theorem replaceArgs_exact_iff (config : CommandOptions) (s device : CString) :
    (∃ sb, replaceArgs config s device = .done sb ∧ sb.s = substitute config device s.bytes) ↔
      ¬ OpenPercent s.bytes := by
  rw [replaceArgs_eq]
  constructor
  · rintro ⟨sb, hdone, -⟩ hopen
    rw [if_pos hopen] at hdone
    cases hdone
  · intro hopen
    rw [if_neg hopen]
    exact ⟨_, rfl, List.nil_append _⟩

end Replace

/-- A command that ends in a `%`. -/
def echoCommand : CString := cstr (ascii "echo 100%")

/-- A configuration with this command. -/
def commandOptions : CommandOptions where
  localIP := inAddr 192 168 0 2
  localport := 57888
  vpnIP := inAddr 10 0 0 1
  vpnNetmask := inAddr 255 255 255 0
  network := cstr (ascii "10.0.0.0/24")
  tunMtu := 1419
  execUp := some [echoCommand]
  execDown := none

def tun0 : CString := cstr (ascii "tun0")

example : (tunDefaultUp .freebsd).map (fun s => substitute commandOptions tun0 s.bytes) =
    [ascii "ifconfig 'tun0' inet 10.0.0.1 10.0.0.1 mtu 1419 up",
      ascii "route add -net '10.0.0.0/24' 10.0.0.1"] := by decide +kernel

/-- `echo 100%` is read past its end. -/
theorem replaceArgs_echoCommand :
    ¬ ∃ sb, replaceArgs commandOptions echoCommand tun0 = .done sb ∧
      sb.s = substitute commandOptions tun0 echoCommand.bytes := by
  rintro ⟨sb, hdone, -⟩
  have h : replaceArgs commandOptions echoCommand tun0 = .overrun := by decide
  rw [h] at hdone
  cases hdone

section Exec

variable {config : CommandOptions} {device : CString}

theorem zero_notMem_decimal (n : ℕ) : 0 ∉ decimal n :=
  fun h => absurd (isdigit_of_mem_decimal h) (by decide)

theorem zero_notMem_formatInt (x : Int) : 0 ∉ formatInt x := by
  rw [formatInt]
  split
  · decide
  · split
    · rw [List.mem_cons, not_or]
      exact ⟨by decide, zero_notMem_decimal _⟩
    · exact zero_notMem_decimal _

theorem zero_notMem_inetNtoa (a : InAddr) : 0 ∉ inetNtoa a := by
  have hdot : (0 : UInt8) ≠ dot := by decide
  simp [inetNtoa, addrBytes, List.intercalate, zero_notMem_formatInt, hdot]

theorem zero_notMem_quoted (s : CString) : 0 ∉ quoted s := by
  have hapostrophe : (0 : UInt8) ≠ apostrophe := by decide
  simp [quoted, s.nul_free, hapostrophe]

theorem zero_notMem_value (v : SpecialVariable) : 0 ∉ v.value config device := by
  cases v with
  | device => exact zero_notMem_quoted _
  | vpnIP => exact zero_notMem_inetNtoa _
  | tunMtu => exact zero_notMem_formatInt _
  | network => exact zero_notMem_quoted _
  | vpnNetmask => exact zero_notMem_inetNtoa _
  | localport => exact zero_notMem_formatInt _
  | localIP => exact zero_notMem_inetNtoa _

theorem zero_notMem_replacement {c : UInt8} (hc : 0 ≠ c) : 0 ∉ replacement config device c := by
  rw [replacement]
  split
  · decide
  · split
    · exact zero_notMem_value _
    · have hpercent : (0 : UInt8) ≠ percent := by decide
      simp [hc, hpercent]

theorem zero_notMem_substitute {t : Bytes} (ht : 0 ∉ t) : 0 ∉ substitute config device t := by
  fun_induction substitute config device t with
  | case1 => exact ht
  | case2 c => exact ht
  | case3 d t ih =>
    simp only [List.mem_cons, not_or] at ht
    rw [List.mem_append, not_or]
    exact ⟨zero_notMem_replacement ht.2.1, ih ht.2.2⟩
  | case4 c d t _ ih =>
    rw [List.mem_cons, not_or] at ht ⊢
    exact ⟨ht.1, ih ht.2⟩

/-- The command that is run for a template. -/
def command (config : CommandOptions) (device s : CString) : CString where
  bytes := substitute config device s.bytes
  nul_free := zero_notMem_substitute s.nul_free

theorem execInternal_eq {programs : List CString} (h : ∀ s ∈ programs, ¬ OpenPercent s.bytes) :
    execInternal config device programs = some (programs.map (command config device)) := by
  induction programs with
  | nil => rfl
  | cons s programs ih =>
    have hs := h s List.mem_cons_self
    have hprograms := ih fun s' hs' => h s' (List.mem_cons_of_mem _ hs')
    rw [execInternal, replaceArgs_eq, if_neg hs]
    simp only [hprograms, Option.map_some, StrBuf.append, StrBuf.reset, List.nil_append,
      cstr_of_notMem (zero_notMem_substitute s.nul_free)]
    rfl

theorem tunDefault_closed (platform : Platform) :
    ∀ s ∈ tunDefaultUp platform ++ tunDefaultDown platform, ¬ OpenPercent s.bytes := by
  cases platform <;> decide +kernel

/-- The default commands are run with their variables replaced, on every system. -/
theorem exec_default (platform : Platform) (hup : config.execUp = none)
    (hdown : config.execDown = none) :
    execUp platform config device =
        some ((tunDefaultUp platform).map (command config device)) ∧
      execDown platform config device =
        some ((tunDefaultDown platform).map (command config device)) := by
  have hclosed := tunDefault_closed platform
  rw [execUp, execDown, hup, hdown]
  exact ⟨execInternal_eq fun s hs => hclosed s (List.mem_append_left _ hs),
    execInternal_eq fun s hs => hclosed s (List.mem_append_right _ hs)⟩

end Exec

end Client
end Campagnol
