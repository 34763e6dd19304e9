import RpiFastbootd.Lib.Search
import RpiFastbootd.Lib.Text

/-!
# The address of the device

`getvar ipv4-address` asks the system first, and then reads the output of `ifconfig` and of `ip`.
`ParseIpv4Address` has a pass over the lines for each of the two, and the pass for `ifconfig` takes
every word with a dot behind `inet `.  The word of `ip` is such a word, with its prefix length, so
that the pass that would cut it off is not reached: the address is bare exactly where the text has
no prefix length in the place that the first pass reads (`parseIpv4Address_exact_iff`).
`ParseIpv6Address` cuts the prefix length off in its only pass (`parseIpv6Address_bare`).
-/

namespace RpiFastbootd

/-! ### Reading the output -/

/-- `ParseIpv4Address`, a line of the first pass. -/
def ifconfigAddress (line : List Char) : Option (List Char) := do
  let inetPart ← after "inet ".toList line
  let addr := word inetPart
  if '.' ∈ addr then some addr
  else
    let addrPart ← after "addr:".toList inetPart
    upTo ' ' addrPart

/-- A line of the second pass. -/
def ipAddress (line : List Char) : Option (List Char) := do
  let inetPart ← after "inet ".toList line
  upTo '/' inetPart

/-- The second pass begins again at the first line. -/
def parseIpv4Address (output : String) : Option String :=
  let lines := getlines output.toList
  ((lines.findSome? ifconfigAddress).or (lines.findSome? ipAddress)).map String.ofList

/-- The text up to a character, or all of it. -/
def cut (c : Char) (text : List Char) : List Char := text.takeWhile (· ≠ c)

/-- `ParseIpv6Address`, on a line. -/
def ipv6Address (line : List Char) : Option (List Char) := do
  let inetPart ← after "inet6 ".toList line
  -- link-local addresses are skipped
  if (after "fe80::".toList inetPart).isSome then none
  else
    let addr := cut '/' (cut '%' (word inetPart))
    if ':' ∈ addr then some addr
    else
      let addrPart ← after "addr:".toList inetPart
      let addr := cut '/' (cut ' ' addrPart)
      if ':' ∈ addr then some addr else none

def parseIpv6Address (output : String) : Option String :=
  ((getlines output.toList).findSome? ipv6Address).map String.ofList

/-! ### Asking the machine -/

inductive IpVersion
  | v4
  | v6
  | both

/-- What the daemon finds on a machine: the address of an interface, the programs, and the log file
after a program that has succeeded. -/
structure NetMachine where
  interfaceAddress : String → IpVersion → Option String
  executable : String → Bool
  run : String → List String → Option String

def kNetworkInterfaces : List String := ["end0", "eth0"]

def ifconfigPaths : List String := ["/sbin/ifconfig", "/usr/sbin/ifconfig", "/bin/ifconfig"]

def ipPaths : List String := ["/sbin/ip", "/usr/sbin/ip", "/bin/ip"]

def tryExecuteCommand (m : NetMachine) (commandPaths args : List String) : Option String :=
  (commandPaths.filter m.executable).findSome? fun path => m.run path args

/-- The body of the loop over the interfaces. -/
def commandAddress (m : NetMachine) (family : String) (parse : String → Option String)
    (interface : String) : Option String :=
  ((tryExecuteCommand m ifconfigPaths [interface]).bind parse).or
    ((tryExecuteCommand m ipPaths [family, "addr", "show", "dev", interface]).bind parse)

/-- The result and the message of a getter. -/
def getAddress (m : NetMachine) (version : IpVersion) (family : String)
    (parse : String → Option String) (missing : String) : Bool × String :=
  match kNetworkInterfaces.findSome? fun interface => m.interfaceAddress interface version with
  | some message => (true, message)
  | none =>
    match kNetworkInterfaces.findSome? (commandAddress m family parse) with
    | some message => (true, message)
    | none => (false, missing)

def getIpv4Address (m : NetMachine) : Bool × String :=
  getAddress m .v4 "-4" parseIpv4Address "No IPv4 address found"

def getIpv6Address (m : NetMachine) : Bool × String :=
  getAddress m .v6 "-6" parseIpv6Address "No IPv6 address found"

/-! ### The formats -/

/-- An address is one word with a dot and without a slash. -/
structure IsAddress (address : String) : Prop where
  dot : '.' ∈ address.toList
  word : ∀ c ∈ address.toList, isSpace c = false
  slash : '/' ∉ address.toList

theorem isAddress_quad (a b c d : ℕ) :
    IsAddress (a.repr ++ "." ++ b.repr ++ "." ++ c.repr ++ "." ++ d.repr) := by
  have hdigits : ∀ n : ℕ, ∀ c' ∈ n.repr.toList, c'.isDigit ∨ c' = '.' :=
    fun _ _ h => .inl (isDigit_of_mem_repr h)
  have hdot : ∀ c' ∈ ".".toList, c'.isDigit ∨ c' = '.' := fun _ h => .inr (List.mem_singleton.1 h)
  have hchar : ∀ c' ∈ (a.repr ++ "." ++ b.repr ++ "." ++ c.repr ++ "." ++ d.repr).toList,
      c'.isDigit ∨ c' = '.' := by
    simp only [String.toList_append, List.forall_mem_append]
    exact ⟨⟨⟨⟨⟨⟨hdigits a, hdot⟩, hdigits b⟩, hdot⟩, hdigits c⟩, hdot⟩, hdigits d⟩
  refine ⟨by simp, fun c' hc' => ?_, fun hslash => ?_⟩
  · obtain h | rfl := hchar c' hc'
    · exact not_isSpace_of_isDigit h
    · rfl
  · obtain h | h := hchar _ hslash
    · exact absurd h (by decide)
    · exact absurd h (by decide)

/-- The first line with `inet ` has this text behind it. -/
def FirstInet (output : String) (inetPart : List Char) : Prop :=
  ∃ before line later, getlines output.toList = before ++ line :: later ∧
    (∀ l ∈ before, ¬ "inet ".toList <:+: l) ∧ IsAfter "inet ".toList line inetPart

/-- The form of `ip addr`: `inet A/P ...`. -/
def IpForm (address output : String) : Prop :=
  ∃ rest, FirstInet output (address.toList ++ '/' :: rest)

/-- The form of `ifconfig`: `inet A ...`. -/
def IfconfigForm (address output : String) : Prop :=
  ∃ rest, FirstInet output (address.toList ++ rest) ∧ ∀ c ∈ rest.head?, isSpace c = true

/-- What is asked of a text: an address that is found is bare, and each form of an address gives
that address. -/
structure Ipv4Exact (output : String) : Prop where
  bare : ∀ address, parseIpv4Address output = some address → '/' ∉ address.toList
  ip : ∀ address, IsAddress address → IpForm address output →
    parseIpv4Address output = some address
  ifconfig : ∀ address, IsAddress address → IfconfigForm address output →
    parseIpv4Address output = some address

/-- The field of a line that the first pass reads: the word behind `inet `, if it has a dot, and
otherwise the text between `addr:` and a blank. -/
inductive AddressField (line : List Char) : List Char → Prop
  | word {inetPart : List Char} (hinet : IsAfter "inet ".toList line inetPart)
      (hdot : '.' ∈ word inetPart) : AddressField line (word inetPart)
  | label {inetPart field more : List Char} (hinet : IsAfter "inet ".toList line inetPart)
      (hdot : '.' ∉ word inetPart)
      (hlabel : IsAfter "addr:".toList inetPart (field ++ ' ' :: more)) (hblank : ' ' ∉ field) :
      AddressField line field

/-- The first address field of the text. -/
def FirstField (output : String) (field : List Char) : Prop :=
  ∃ before line later, getlines output.toList = before ++ line :: later ∧
    (∀ l ∈ before, ∀ f, ¬ AddressField l f) ∧ AddressField line field

/-- The first address field of the text has a prefix length. -/
def CarriesPrefix (output : String) : Prop := ∃ field, FirstField output field ∧ '/' ∈ field

/-! ### The two passes -/

section

variable {output : String}

theorem ifconfigAddress_eq_some_iff {line field : List Char} :
    ifconfigAddress line = some field ↔ AddressField line field := by
  unfold ifconfigAddress
  simp only [Option.bind_eq_bind, Option.bind_eq_some_iff, after_eq_some_iff]
  constructor
  · rintro ⟨inetPart, hinet, h⟩
    split_ifs at h with hdot
    · cases h
      exact .word hinet hdot
    · obtain ⟨addrPart, hlabel, hfield⟩ := Option.bind_eq_some_iff.1 h
      obtain ⟨hblank, more, rfl⟩ := upTo_eq_some_iff.1 hfield
      exact .label hinet hdot (after_eq_some_iff.1 hlabel) hblank
  · rintro (⟨hinet, hdot⟩ | ⟨hinet, hdot, hlabel, hblank⟩)
    · exact ⟨_, hinet, if_pos hdot⟩
    · refine ⟨_, hinet, ?_⟩
      rw [if_neg hdot]
      exact Option.bind_eq_some_iff.2
        ⟨_, after_eq_some_iff.2 hlabel, upTo_eq_some_iff.2 ⟨hblank, _, rfl⟩⟩

theorem ifconfigAddress_eq_none_iff {line : List Char} :
    ifconfigAddress line = none ↔ ∀ field, ¬ AddressField line field := by
  simp only [Option.eq_none_iff_forall_ne_some, ← ifconfigAddress_eq_some_iff, ne_eq]

theorem AddressField.isInfix {line field : List Char} (h : AddressField line field) :
    "inet ".toList <:+: line := by
  cases h with
  | word hinet _ => exact hinet.isInfix
  | label hinet _ _ _ => exact hinet.isInfix

/-- The first pass finds the first address field. -/
theorem firstPass_eq_some_iff {field : List Char} :
    (getlines output.toList).findSome? ifconfigAddress = some field ↔ FirstField output field := by
  simp only [List.findSome?_eq_some_iff, ifconfigAddress_eq_some_iff, ifconfigAddress_eq_none_iff]
  exact ⟨fun ⟨before, line, later, heq, hfield, hnone⟩ => ⟨before, line, later, heq, hnone, hfield⟩,
    fun ⟨before, line, later, heq, hnone, hfield⟩ => ⟨before, line, later, heq, hfield, hnone⟩⟩

/-- Where there is an address field the second pass is not reached. -/
theorem parseIpv4Address_of_firstField {field : List Char} (h : FirstField output field) :
    parseIpv4Address output = some (String.ofList field) := by
  unfold parseIpv4Address
  dsimp only
  rw [firstPass_eq_some_iff.2 h]
  rfl

/-- An address of the second pass is bare. -/
theorem field_or_bare_of_parse {address : String} (h : parseIpv4Address output = some address) :
    FirstField output address.toList ∨ '/' ∉ address.toList := by
  obtain ⟨found, hfound, rfl⟩ := Option.map_eq_some_iff.1 h
  rw [String.toList_ofList]
  obtain hfirst | ⟨-, hsecond⟩ := Option.or_eq_some_iff.1 hfound
  · exact .inl (firstPass_eq_some_iff.1 hfirst)
  · obtain ⟨line, -, hline⟩ := List.exists_of_findSome?_eq_some hsecond
    obtain ⟨inetPart, -, hup⟩ := Option.bind_eq_some_iff.1 hline
    exact .inr (upTo_eq_some_iff.1 hup).1

/-- A word with a dot behind the first `inet ` is the first address field, with all that follows it
up to a blank. -/
theorem FirstInet.firstField {w rest : List Char} (h : FirstInet output (w ++ rest))
    (hw : ∀ c ∈ w, isSpace c = false) (hdot : '.' ∈ w) :
    FirstField output (w ++ rest.takeWhile fun c => !isSpace c) := by
  obtain ⟨before, line, later, heq, hbefore, hinet⟩ := h
  have hword : word (w ++ rest) = w ++ rest.takeWhile fun c => !isSpace c :=
    word_append (List.ne_nil_of_mem hdot) hw
  refine ⟨before, line, later, heq, fun l hl f hf => hbefore l hl hf.isInfix, ?_⟩
  rw [← hword]
  refine .word hinet ?_
  rw [hword]
  exact List.mem_append_left _ hdot

end

/-! ### The formats of an address -/

section

variable {address output : String}

/-- The form of `ip addr` gives the address with its prefix length. -/
theorem IpForm.firstField (ha : IsAddress address) (h : IpForm address output) :
    ∃ prefixLength, FirstField output (address.toList ++ '/' :: prefixLength) := by
  obtain ⟨rest, hinet⟩ := h
  refine ⟨rest.takeWhile fun c => !isSpace c, ?_⟩
  have hfield := hinet.firstField ha.word ha.dot
  rwa [List.takeWhile_cons_of_pos (by decide)] at hfield

theorem IfconfigForm.firstField (ha : IsAddress address) (h : IfconfigForm address output) :
    FirstField output address.toList := by
  obtain ⟨rest, hinet, hblank⟩ := h
  have hfield := hinet.firstField ha.word ha.dot
  rwa [takeWhile_of_blank hblank, List.append_nil] at hfield

/-- The two forms of an address never agree. -/
theorem parseIpv4Address_ne {ipText ifconfigText : String} (ha : IsAddress address)
    (hip : IpForm address ipText) (hifconfig : IfconfigForm address ifconfigText) :
    parseIpv4Address ipText ≠ parseIpv4Address ifconfigText := by
  obtain ⟨prefixLength, hfield⟩ := hip.firstField ha
  rw [parseIpv4Address_of_firstField hfield,
    parseIpv4Address_of_firstField (hifconfig.firstField ha), String.ofList_toList]
  intro heq
  refine ha.slash ?_
  rw [← Option.some.inj heq, String.toList_ofList]
  simp

/-- The older form of `ifconfig`, `inet addr:A ...`, gives the address with its label: the branch
that looks for the label is for words without a dot. -/
theorem parseIpv4Address_label {rest : List Char} (ha : IsAddress address)
    (h : FirstInet output ("addr:".toList ++ address.toList ++ rest))
    (hblank : ∀ c ∈ rest.head?, isSpace c = true) :
    parseIpv4Address output = some ("addr:" ++ address) := by
  have hword : ∀ c ∈ "addr:".toList ++ address.toList, isSpace c = false := by
    intro c hc
    obtain hc | hc := List.mem_append.1 hc
    · have hlabel : ("addr:".toList.all fun c => !isSpace c) = true := by decide
      simpa using List.all_eq_true.1 hlabel c hc
    · exact ha.word c hc
  have hfield := h.firstField hword (List.mem_append_right _ ha.dot)
  rw [takeWhile_of_blank hblank, List.append_nil] at hfield
  rw [parseIpv4Address_of_firstField hfield, String.ofList_append, String.ofList_toList,
    String.ofList_toList]

/-- A text gives bare addresses, and each of the two forms its address, if and only if its first
address field has no prefix length. -/
theorem parseIpv4Address_exact_iff (output : String) :
    Ipv4Exact output ↔ ¬ CarriesPrefix output := by
  constructor
  · rintro h ⟨field, hfield, hslash⟩
    refine h.bare _ (parseIpv4Address_of_firstField hfield) ?_
    rwa [String.toList_ofList]
  · intro h
    refine ⟨fun address hparse hslash => ?_, fun address ha hip => ?_, fun address ha hif => ?_⟩
    · obtain hfield | hbare := field_or_bare_of_parse hparse
      · exact h ⟨_, hfield, hslash⟩
      · exact hbare hslash
    · obtain ⟨prefixLength, hfield⟩ := hip.firstField ha
      exact (h ⟨_, hfield, by simp⟩).elim
    · rw [parseIpv4Address_of_firstField (hif.firstField ha), String.ofList_toList]

/-- The output of the two programs for one address. -/
def ipOutput : String := "2: eth0: mtu 1500\n    inet 192.168.1.2/24 scope global eth0\n"

def ifconfigOutput : String := "eth0: mtu 1500\n    inet 192.168.1.2  netmask 255.255.255.0\n"

/-- The two forms of an address give two texts, and the text of `ip` is no bare address. -/
theorem ip_output_not_bare :
    (IpForm "192.168.1.2" ipOutput ∧ IfconfigForm "192.168.1.2" ifconfigOutput) ∧
      parseIpv4Address ipOutput = some "192.168.1.2/24" ∧
      parseIpv4Address ifconfigOutput = some "192.168.1.2" ∧ ¬ Ipv4Exact ipOutput := by
  have hparse : parseIpv4Address ipOutput = some "192.168.1.2/24" := by decide +kernel
  have hip : FirstInet ipOutput ("192.168.1.2".toList ++ '/' :: "24 scope global eth0".toList) :=
    ⟨["2: eth0: mtu 1500".toList], "    inet 192.168.1.2/24 scope global eth0".toList, [],
      by decide +kernel, by decide +kernel, after_eq_some_iff.1 (by decide +kernel)⟩
  have hifconfig : FirstInet ifconfigOutput
      ("192.168.1.2".toList ++ "  netmask 255.255.255.0".toList) :=
    ⟨["eth0: mtu 1500".toList], "    inet 192.168.1.2  netmask 255.255.255.0".toList, [],
      by decide +kernel, by decide +kernel, after_eq_some_iff.1 (by decide +kernel)⟩
  have hblank : "  netmask 255.255.255.0".toList.head? = some ' ' := by decide +kernel
  refine ⟨⟨⟨_, hip⟩, _, hifconfig, fun c hc => ?_⟩, hparse, by decide +kernel,
    fun h => h.bare _ hparse (by decide +kernel)⟩
  rw [← Option.some.inj (hblank.symm.trans hc)]
  rfl

end

/-! ### The getters -/

theorem notMem_cut (c : Char) (text : List Char) : c ∉ cut c text := fun h => by
  simpa using List.all_eq_true.1 List.all_takeWhile c h

/-- The sibling for IPv6 cuts the prefix length off. -/
theorem parseIpv6Address_bare {output address : String}
    (h : parseIpv6Address output = some address) : '/' ∉ address.toList := by
  obtain ⟨found, hfound, rfl⟩ := Option.map_eq_some_iff.1 h
  obtain ⟨line, -, hline⟩ := List.exists_of_findSome?_eq_some hfound
  obtain ⟨inetPart, -, hpart⟩ := Option.bind_eq_some_iff.1 hline
  rw [String.toList_ofList]
  dsimp only at hpart
  split_ifs at hpart
  · cases hpart
    exact notMem_cut _ _
  · obtain ⟨addrPart, -, hlabel⟩ := Option.bind_eq_some_iff.1 hpart
    split_ifs at hlabel
    cases hlabel
    exact notMem_cut _ _

section

variable {m : NetMachine}

/-- An address is the system's, or is read from the output of a program. -/
theorem source_of_getAddress {version : IpVersion} {family missing message : String}
    {parse : String → Option String}
    (h : getAddress m version family parse missing = (true, message)) :
    (∃ interface, m.interfaceAddress interface version = some message) ∨
      ∃ path args output, m.run path args = some output ∧ parse output = some message := by
  have hcommand : ∀ paths args, (tryExecuteCommand m paths args).bind parse = some message →
      ∃ path args output, m.run path args = some output ∧ parse output = some message := by
    intro paths args hbind
    obtain ⟨output, htry, hparse⟩ := Option.bind_eq_some_iff.1 hbind
    obtain ⟨path, -, hrun⟩ := List.exists_of_findSome?_eq_some htry
    exact ⟨path, args, output, hrun, hparse⟩
  unfold getAddress at h
  split at h
  · rename_i hsystem
    cases h
    obtain ⟨interface, -, haddress⟩ := List.exists_of_findSome?_eq_some hsystem
    exact .inl ⟨interface, haddress⟩
  · split at h
    · rename_i hfallback
      cases h
      obtain ⟨interface, -, haddress⟩ := List.exists_of_findSome?_eq_some hfallback
      obtain hif | ⟨-, hip⟩ := Option.or_eq_some_iff.1 haddress
      · exact .inr (hcommand _ _ hif)
      · exact .inr (hcommand _ _ hip)
    · cases h

/-- `ipv6-address` is bare on every machine whose system gives bare addresses. -/
theorem getIpv6Address_bare {message : String}
    (hsystem : ∀ interface address, m.interfaceAddress interface .v6 = some address →
      '/' ∉ address.toList)
    (h : getIpv6Address m = (true, message)) : '/' ∉ message.toList := by
  obtain ⟨interface, haddress⟩ | ⟨path, args, output, -, hparse⟩ := source_of_getAddress h
  · exact hsystem interface message haddress
  · exact parseIpv6Address_bare hparse

/-- `ipv4-address` is, where no output of a program has a prefix length in the first field. -/
theorem getIpv4Address_bare {message : String}
    (hsystem : ∀ interface address, m.interfaceAddress interface .v4 = some address →
      '/' ∉ address.toList)
    (hrun : ∀ path args output, m.run path args = some output → ¬ CarriesPrefix output)
    (h : getIpv4Address m = (true, message)) : '/' ∉ message.toList := by
  obtain ⟨interface, haddress⟩ | ⟨path, args, output, hout, hparse⟩ := source_of_getAddress h
  · exact hsystem interface message haddress
  · obtain hfield | hbare := field_or_bare_of_parse hparse
    · exact fun hslash => hrun path args output hout ⟨_, hfield, hslash⟩
    · exact hbare

/-- On a machine with `ip` only, `ipv4-address` has the prefix length of the interface. -/
theorem getIpv4Address_of_ip {address output : String} (ha : IsAddress address)
    (hsystem : ∀ interface, m.interfaceAddress interface .v4 = none)
    (hifconfig : ∀ path ∈ ifconfigPaths, m.executable path = false)
    (hip : tryExecuteCommand m ipPaths ["-4", "addr", "show", "dev", "end0"] = some output)
    (hform : IpForm address output) :
    ∃ prefixLength, getIpv4Address m = (true, address ++ "/" ++ prefixLength) := by
  obtain ⟨prefixLength, hfield⟩ := hform.firstField ha
  have hno : ∀ args, tryExecuteCommand m ifconfigPaths args = none := by
    intro args
    rw [tryExecuteCommand, List.filter_eq_nil_iff.2 fun path hpath => by simp [hifconfig path hpath]]
    rfl
  have hcommand : commandAddress m "-4" parseIpv4Address "end0" =
      some (String.ofList (address.toList ++ '/' :: prefixLength)) := by
    rw [commandAddress, hno, hip]
    exact parseIpv4Address_of_firstField hfield
  refine ⟨String.ofList prefixLength, ?_⟩
  have hnone : kNetworkInterfaces.findSome? (fun interface => m.interfaceAddress interface .v4) =
      none := List.findSome?_eq_none_iff.2 fun interface _ => hsystem interface
  have hfirst : kNetworkInterfaces.findSome? (commandAddress m "-4" parseIpv4Address) =
      some (String.ofList (address.toList ++ '/' :: prefixLength)) := by
    rw [kNetworkInterfaces, List.findSome?_cons, hcommand]
  rw [getIpv4Address, getAddress, hnone, hfirst]
  refine congrArg (Prod.mk true) (String.toList_inj.1 ?_)
  simp

end

end RpiFastbootd
