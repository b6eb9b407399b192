import IpApps.Diagtools.QuotedParameter
import IpApps.Lib.PlainWords

/-!
# `nwdiag`

The program that the lines of `ping_main` and `traceroute_handler` call. It enters a namespace and
gives the tool and the parameter string to a shell of its own, this time without quotes. So the
user's target is read twice: `runsTool_words_iff` says when the tool is called with the words of
the entry after all.
-/

namespace IpApps
namespace Diagtools

open ExceptLoops ShellWords Snprintf

/-! ## The program -/

/-- `BUFFSIZE`. -/
def buffsize : ℕ := 1024

/-- `NAMESPACELENGTH`. -/
def namespacelength : ℕ := 256

/-- The functions that enter a namespace, by whether they succeed. -/
structure Namespaces where
  nlSetnsOobm : Bool
  nlSetnsWithName : CString → Bool

/-- Where the tool is run. -/
inductive Entered
  | oobm
  | named (ns : CString)
  deriving DecidableEq, Repr

/-- What `main` comes to: a message on the standard output, or the array that `popen` gets. -/
inductive NwdiagOutcome
  | printed (message : String)
  | popen (entered : Entered) (buffer : Buffer buffsize)
  deriving DecidableEq, Repr

/-- The tools in the order of their comparisons. -/
def nwdiagTools : List CString :=
  ["ping".toList, "ping6".toList, "traceroute".toList, "traceroute6".toList]

/-- The first tool that starts with the argument, as `strncmp` up to the length of it tells. -/
def findTool (argument : CString) : Option CString :=
  nwdiagTools.find? fun tool => argument.isPrefixOf tool

/-- Entering the namespace, or the message. -/
def enterNamespace (os : Namespaces) (ns : CString) : Except String Entered :=
  if "mgmt".toList.isPrefixOf ns then
    if os.nlSetnsOobm then .ok .oobm
    else .error "Internal error, failed to enter mgmt OOBM namespace\n"
  else if namespacelength < ns.length then .error "Internal error, invalid vrf\n"
  else if os.nlSetnsWithName ns then .ok (.named ns)
  else .error "Internal error, vrf not found\n"

/-- `main` behind the choice of the tool: the line, up to `popen`. -/
def popenLine (entered : Entered) (tool : CString) (parameters : List CString) :
    Except Undefined NwdiagOutcome := do
  let b ← Buffer.empty.append (tool ++ [' '])
  match parameters with
  -- `argv[argc]`
  | [] => .error .nullPointer
  | param :: _ =>
    if param.length < buffsize - b.len then do
      let b ← b.append (param ++ [' '])
      return .popen entered b
    else return .printed "Internal error: buffer overflow\n"

/-- `main` of `nwdiag`. -/
def nwdiagMain (os : Namespaces) : List CString → Except Undefined NwdiagOutcome
  | _ :: ns :: command :: parameters =>
    match enterNamespace os ns with
    | .error message => .ok (.printed message)
    | .ok entered =>
      match findTool command with
      | none => .ok (.printed "Internal error: unsupported operation\n")
      | some tool => popenLine entered tool parameters
  | _ => .ok (.printed "Invalid number of arguments specified\n")

/-- The namespace that the handler means can be entered under its name. -/
def Namespaces.Enters (os : Namespaces) (mgmt : Bool) (ns : CString) : Prop :=
  if mgmt then os.nlSetnsOobm = true
  else os.nlSetnsWithName ns = true ∧ ¬"mgmt".toList <+: ns

instance (os : Namespaces) (mgmt : Bool) (ns : CString) : Decidable (os.Enters mgmt ns) :=
  inferInstanceAs (Decidable (if mgmt = true then os.nlSetnsOobm = true
    else os.nlSetnsWithName ns = true ∧ ¬"mgmt".toList <+: ns))

/-- The namespace that the handler means. -/
def enteredFor (mgmt : Bool) (vrfN : CString) : Entered :=
  if mgmt then .oobm else .named (namespaceOf false vrfN)

/-- The shell of the handler's line calls `nwdiag`, and the shell of the line of `nwdiag` calls
the tool with these arguments in the namespace. -/
def RunsTool (sh : Shell) (os : Namespaces) (entered : Entered) (arguments : List CString)
    (run : Except Undefined Outcome) : Prop :=
  ∃ buffer argv line,
    run = .ok (.popen buffer) ∧ buffer.len < bufsiz ∧ lineWords sh buffer.text = some argv ∧
    nwdiagMain os argv = .ok (.popen entered line) ∧ lineWords sh line.text = some arguments

/-! ## The line of `nwdiag` -/

theorem enterNamespace_eq_iff {os : Namespaces} {mgmt : Bool} {vrfN : CString}
    (h : IsNamespace vrfN) :
    enterNamespace os (namespaceOf mgmt vrfN) = .ok (enteredFor mgmt vrfN)
      ↔ os.Enters mgmt (namespaceOf mgmt vrfN) := by
  cases mgmt with
  | true =>
    have hmgmt : enterNamespace os (namespaceOf true vrfN)
        = if os.nlSetnsOobm then .ok .oobm
          else .error "Internal error, failed to enter mgmt OOBM namespace\n" := rfl
    rw [hmgmt]
    show _ = Except.ok Entered.oobm ↔ os.nlSetnsOobm = true
    cases os.nlSetnsOobm <;> simp
  | false =>
    have hlength := length_namespaceOf false h
    show _ = Except.ok (Entered.named (namespaceOf false vrfN)) ↔ _ ∧ _
    generalize namespaceOf false vrfN = ns at hlength ⊢
    -- the name of a namespace fits into the array it is copied to
    have hshort : ¬namespacelength < ns.length := by
      rw [uuidLen] at hlength
      rw [namespacelength]
      omega
    rw [enterNamespace, if_neg hshort, ← List.isPrefixOf_iff_prefix]
    cases "mgmt".toList.isPrefixOf ns with
    | true => cases os.nlSetnsOobm <;> simp
    | false => cases os.nlSetnsWithName ns <;> simp

theorem findTool_of_mem {tool : CString} (h : tool ∈ nwdiagTools) :
    findTool tool = some tool ∧ tool.length ≤ 11 ∧ IsWord tool := by
  simp only [nwdiagTools, List.mem_cons, List.not_mem_nil, or_false] at h
  rcases h with rfl | rfl | rfl | rfl <;> decide

/-- The line of `nwdiag`. Where the array is full with the parameter, the last blank is cut. -/
def nwdiagLine (tool param : CString) : CString :=
  tool ++ ' ' :: (param ++ [' '].take (buffsize - (tool.length + 1) - 1 - param.length))

theorem popenLine_popen_iff {tool param : CString} {entered entered' : Entered}
    {P : CString → Prop} (htool : tool.length ≤ 11) :
    (∃ line, popenLine entered' tool [param] = .ok (.popen entered line) ∧ P line.text)
      ↔ entered' = entered ∧ tool.length + 1 + param.length < buffsize ∧
        P (nwdiagLine tool param) := by
  obtain ⟨b, hb, htext, hlen⟩ := Buffer.append_of_lt (by decide) (@Buffer.empty buffsize)
    (tool ++ [' ']) (by simp [Buffer.empty, buffsize]; omega)
  replace hlen : b.len = tool.length + 1 := by rw [hlen]; simp [Buffer.empty]
  have hline : popenLine entered' tool [param]
      = if param.length < buffsize - b.len then
          b.append (param ++ [' ']) >>= fun b => .ok (.popen entered' b)
        else .ok (.printed "Internal error: buffer overflow\n") := by
    rw [popenLine, hb]
    rfl
  rw [hline]
  by_cases hroom : param.length < buffsize - b.len
  · have hout : ¬buffsize < b.len := by omega
    have hint : ¬intMax < b.len + (param ++ [' ']).length := by
      have hsize : buffsize ≤ intMax := by decide
      rw [List.length_append, List.length_singleton]
      omega
    -- snprintf leaves out the last blank where the parameter fills the array
    have htake : b.text ++ (param ++ [' ']).take (buffsize - b.len - 1)
        = nwdiagLine tool param := by
      rw [htext, hlen, nwdiagLine, List.take_append, List.take_of_length_le (by omega)]
      simp [Buffer.empty]
    rw [if_pos hroom, Buffer.append, if_neg hout, if_neg hint, ok_bind, ← htake]
    simp
    omega
  · rw [if_neg hroom]
    simp
    omega

/-- `nwdiag` gives the line to its shell if and only if it enters the namespace and the array has
room for the tool and the parameter string. -/
theorem nwdiagMain_popen_iff {os : Namespaces} {program ns tool param : CString}
    {entered : Entered} {P : CString → Prop} (htool : tool ∈ nwdiagTools) :
    (∃ line, nwdiagMain os [program, ns, tool, param] = .ok (.popen entered line) ∧ P line.text)
      ↔ enterNamespace os ns = .ok entered ∧ tool.length + 1 + param.length < buffsize ∧
        P (nwdiagLine tool param) := by
  obtain ⟨hfind, hlength, _⟩ := findTool_of_mem htool
  rw [nwdiagMain, hfind]
  cases enterNamespace os ns with
  | error message => simp
  | ok entered' =>
    dsimp only
    rw [popenLine_popen_iff hlength, Except.ok.injEq]

/-! ## Both lines -/

/-- The parameter string. -/
def paramOf (front : List CString) (target : Option CString) (options : List CString) : CString :=
  (' ' :: front.flatten) ++ (target.getD [] ++ (options.flatten ++ [' ']))

section lines

variable {sh : Shell} {os : Namespaces} {ns tool : CString} {front : List CString}
  {target : Option CString} {options : List CString} {run : Except Undefined Outcome}

theorem flatten_commandPieces_paramOf (hblank : options.flatten.head? = some ' ') :
    (commandPieces ns tool front target options).flatten
      = quotedCommand [exePath, ns, tool] (paramOf front target options) := by
  obtain ⟨after, hafter⟩ := List.head?_eq_some_iff.mp hblank
  rw [flatten_commandPieces hafter, paramOf, hafter]
  rfl

/-- With a parameter string of text only, what is run is read from the line of `nwdiag`. -/
theorem runsTool_iff {entered : Entered} {arguments : List CString}
    (hrun : run = Buffer.empty.appendAll (commandPieces ns tool front target options)
      >>= fun b => .ok (.popen b))
    (hns : IsWord ns) (hlength : ns.length ≤ uuidLen) (htool : tool ∈ nwdiagTools)
    (hparam : (paramOf front target options).all isLiteral = true)
    (hblank : options.flatten.head? = some ' ') :
    RunsTool sh os entered arguments run
      ↔ enterNamespace os ns = .ok entered ∧
        tool.length + 1 + (paramOf front target options).length < buffsize ∧
        lineWords sh (nwdiagLine tool (paramOf front target options)) = some arguments := by
  obtain ⟨_, htoolLength, htoolWord⟩ := findTool_of_mem htool
  have hwords : ∀ w ∈ [exePath, ns, tool], IsWord w := by
    intro w hw
    simp only [List.mem_cons, List.not_mem_nil, or_false] at hw
    rcases hw with rfl | rfl | rfl
    · decide
    · exact hns
    · exact htoolWord
  have hline := @flatten_commandPieces_paramOf ns tool front target options hblank
  have hargv := @lineWords_quotedCommand sh _ _ hwords hparam
  -- what fits into the array of nwdiag fits into the first line
  have hshort : tool.length + 1 + (paramOf front target options).length < buffsize →
      (commandPieces ns tool front target options).flatten.length < bufsiz := by
    rw [length_commandPieces, paramOf]
    simp only [List.length_append, List.length_cons, List.length_nil]
    rw [uuidLen] at hlength
    rw [buffsize, bufsiz]
    omega
  have hfits := @Buffer.appendAll_fits_iff bufsiz (by decide)
    (commandPieces ns tool front target options) fun text => ∃ argv line,
      lineWords sh text = some argv ∧ nwdiagMain os argv = .ok (.popen entered line) ∧
        lineWords sh line.text = some arguments
  have hpopen := @nwdiagMain_popen_iff os exePath ns tool (paramOf front target options) entered
    (lineWords sh · = some arguments) htool
  constructor
  · rintro ⟨buffer, argv, line, hok, hlen, hread⟩
    obtain ⟨b, hb, hbuffer⟩ := bind_eq_ok (hrun.symm.trans hok)
    cases hbuffer
    obtain ⟨_, argv', line', hargv', hmain, hwords'⟩ :=
      hfits.mp ⟨buffer, hb, hlen, argv, line, hread⟩
    rw [hline, hargv] at hargv'
    cases hargv'
    exact hpopen.mp ⟨line', hmain, hwords'⟩
  · intro h
    obtain ⟨line, hmain, hread⟩ := hpopen.mpr h
    obtain ⟨b, hb, hlen, argv', line', hrest⟩ :=
      hfits.mpr ⟨hshort h.2.1, _, line, hline ▸ hargv, hmain, hread⟩
    exact ⟨b, argv', line', by rw [hrun, hb]; rfl, hlen, hrest⟩

/-- What may stand in front of the target. -/
structure FrontReadsAs (sh : Shell) (front words : List CString) : Prop where
  text : ∃ text, ' ' :: front.flatten = text ++ [' '] ∧ ReadsAs sh text words
  literal : front.flatten.all isLiteral = true

/-- A target that can be read as words and operators. -/
def IsTarget (target : CString) : Prop := target ≠ [] ∧ target.all isCommandChar = true

instance (target : CString) : Decidable (IsTarget target) :=
  inferInstanceAs (Decidable (_ ∧ _))

theorem isLiteral_of_isCommandChar {s : CString} (h : s.all isCommandChar = true) :
    s.all isLiteral = true :=
  all_isLiteral_of (by decide) h

theorem isLiteral_paramOf (hfront : front.flatten.all isLiteral = true)
    (htarget : ∀ t ∈ target, IsTarget t) (hoptions : options.flatten.all isLiteral = true) :
    (paramOf front target options).all isLiteral = true := by
  have htext : (target.getD []).all isLiteral = true := by
    cases target with
    | none => rfl
    | some t => exact isLiteral_of_isCommandChar (htarget t rfl).2
  simp only [paramOf, List.all_append, List.all_cons, hfront, htext, hoptions]
  decide

/-- The arguments in the line of `nwdiag`. -/
theorem lineWords_nwdiagLine_iff {frontWords optionWords : List CString}
    (htool : tool ∈ nwdiagTools) (hfront : FrontReadsAs sh front frontWords)
    (htarget : ∀ t ∈ target, IsTarget t) (hoptions : ReadsAs sh options.flatten optionWords) :
    lineWords sh (nwdiagLine tool (paramOf front target options))
        = some (tool :: (frontWords ++ target.toList ++ optionWords))
      ↔ ∀ t ∈ target, t.all isWordChar = true := by
  obtain ⟨_, _, hword⟩ := findTool_of_mem htool
  obtain ⟨text, htext, hread⟩ := hfront.text
  have hcut : ∀ n, ReadsAs sh ([' '].take n) [] := fun n => by
    cases n with
    | zero => exact .nil
    | succ n =>
      rw [List.take_of_length_le (Nat.le_add_left 1 n)]
      exact .blank
  generalize hn : buffsize - (tool.length + 1) - 1 - (paramOf front target options).length = n
  have hline : nwdiagLine tool (paramOf front target options)
      = tool ++ ([' '] ++ text ++ ' ' :: (target.getD [] ++
          (options.flatten ++ ([' '] ++ [' '].take n)))) := by
    rw [nwdiagLine, hn, paramOf, htext]
    simp
  -- all but the target reads as the words that were meant, whatever stands there instead
  have hplain : ∀ front' words, ReadsAs sh front' words →
      lineWords sh (tool ++ ([' '] ++ text ++
          (front' ++ (options.flatten ++ ([' '] ++ [' '].take n)))))
        = some (tool :: (frontWords ++ words ++ optionWords)) := by
    intro front' words hfront'
    have h := ((ReadsAs.blank.append hread).append
      (hfront'.append (hoptions.append (ReadsAs.blank.append (hcut n))))).lineWords hword
    rw [h]
    simp
  rw [hline]
  cases target with
  | none => exact iff_of_true (hplain [' '] [] .blank) (by rintro _ ⟨⟩)
  | some t =>
    rw [Option.getD_some]
    by_cases ht : t.all isWordChar = true
    · have hall : ∀ t' ∈ some t, t'.all isWordChar = true := by
        rintro _ ⟨⟩
        exact ht
      exact iff_of_true (hplain (' ' :: t) [t] (.word ⟨(htarget t rfl).1, ht⟩)) hall
    · have hnone := (ReadsAs.blank.append hread).lineWords_operators (htarget t rfl).2 ht hword.2
        (options.flatten ++ ([' '] ++ [' '].take n))
      rw [hnone]
      exact iff_of_false (Option.some_ne_none _).symm fun h => ht (h t rfl)

/-- The tool is called with the words of the pieces if and only if the namespace is entered, the
parameter string fits, and no character of the target is an operator. -/
theorem runsTool_words_iff {mgmt : Bool} {vrfN : CString} {frontWords optionWords : List CString}
    (hrun : run = Buffer.empty.appendAll
        (commandPieces (namespaceOf mgmt vrfN) tool front target options)
      >>= fun b => .ok (.popen b))
    (hvrf : IsNamespace vrfN) (htool : tool ∈ nwdiagTools)
    (hfront : FrontReadsAs sh front frontWords) (htarget : ∀ t ∈ target, IsTarget t)
    (hliteral : options.flatten.all isLiteral = true)
    (hblank : options.flatten.head? = some ' ')
    (hoptions : ReadsAs sh options.flatten optionWords) :
    RunsTool sh os (enteredFor mgmt vrfN)
        (tool :: (frontWords ++ target.toList ++ optionWords)) run
      ↔ os.Enters mgmt (namespaceOf mgmt vrfN) ∧
        tool.length + 1 + (paramOf front target options).length < buffsize ∧
        ∀ t ∈ target, t.all isWordChar = true := by
  rw [runsTool_iff hrun (isWord_namespaceOf mgmt hvrf) (length_namespaceOf mgmt hvrf) htool
    (isLiteral_paramOf hfront.literal htarget hliteral) hblank, enterNamespace_eq_iff hvrf,
    lineWords_nwdiagLine_iff htool hfront htarget hoptions]

/-! ## Options -/

theorem isWord_decimal (n : ℤ) : IsWord (decimal n) := by
  have hdigits : IsWord (Nat.toDigits 10 n.natAbs) :=
    ⟨Nat.toDigits_ne_nil, List.all_eq_true.mpr fun c hc =>
      isWordChar_of (by decide) (List.all_eq_true.mp (Libc.isDotted_toDigits n.natAbs) c hc)⟩
  rw [decimal]
  split
  · refine ⟨List.cons_ne_nil _ _, ?_⟩
    rw [List.all_cons, hdigits.2]
    decide
  · exact hdigits

/-- A flag and a number. -/
theorem readsAs_number {flag : CString} (h : IsWord flag) (n : ℤ) :
    ReadsAs sh (' ' :: flag ++ ' ' :: decimal n) [flag, decimal n] :=
  .option h (isWord_decimal n)

end lines

namespace PingEntry

variable {p : PingEntry} {sh : Shell}

/-- The words of the IP option. -/
def ipOptionWords (p : PingEntry) : List CString :=
  if p.includeTimestamp then ["-T".toList, "tsonly".toList]
  else if p.includeTimestampAddress then ["-T".toList, "tsandaddr".toList]
  else if p.recordRoute then ["-R".toList]
  else []

/-- The words of the options of IPv4. -/
def ipv4Words (p : PingEntry) : List CString :=
  ["-W".toList, decimal (if p.pingTimeout = 0 then pingDefTimeout else p.pingTimeout).toNat]
    ++ (if p.pingTos ≠ 0 then ["-Q".toList, decimal p.pingTos.toNat] else [])
    ++ p.ipOptionWords

/-- The words of the options. -/
def optionWords (p : PingEntry) : List CString :=
  ["-c".toList,
      decimal (if p.pingRepetitions = 0 then pingDefCount else p.pingRepetitions).toNat,
    "-s".toList, decimal (if p.pingDataSize = 0 then pingDefSize else p.pingDataSize).toNat]
    ++ (if p.pingInterval ≠ 0 then ["-i".toList, decimal p.pingInterval.toNat] else [])
    ++ (p.pingDataFill.elim [] fun dataFill => ["-p".toList, dataFill])
    ++ (if p.isIpv4 then p.ipv4Words else [])

/-- The call of the tool that the entry stands for. -/
def words (p : PingEntry) : List CString :=
  p.tool :: ((if p.isBcast then ["-b".toList] else []) ++ p.pingTarget.toList ++ p.optionWords)

theorem readsAs_ipv4Options : ReadsAs sh p.ipv4Options.flatten p.ipv4Words := by
  have hflag : IsWord "-T".toList := by decide
  have hoption : ReadsAs sh p.ipOption.flatten p.ipOptionWords := by
    refine .flatten_ite _ ?_ (.flatten_ite _ ?_ (.flatten_ite _ ?_ .nil))
    · exact (ReadsAs.option hflag (by decide : IsWord "tsonly".toList)).append .blank
    · exact (ReadsAs.option hflag (by decide : IsWord "tsandaddr".toList)).append .blank
    · exact (ReadsAs.word (by decide : IsWord "-R".toList)).append .blank
  refine .flatten_append (.flatten_append ?_ (.flatten_ite _ ?_ .nil)) hoption
  · exact (readsAs_number (by decide : IsWord "-W".toList) _).append .nil
  · exact (readsAs_number (by decide : IsWord "-Q".toList) _).append .nil

/-- The options as words. An empty data-fill would not be a word. -/
theorem Checked.readsAs_options (hp : p.Checked) (hfill : p.pingDataFill ≠ some []) :
    ReadsAs sh p.options.flatten p.optionWords := by
  have hdataFill : ReadsAs sh (p.pingDataFill.map (" -p ".toList ++ ·)).toList.flatten
      (p.pingDataFill.elim [] fun dataFill => ["-p".toList, dataFill]) := by
    cases h : p.pingDataFill with
    | none => exact .nil
    | some dataFill =>
      have hword : IsWord dataFill := by
        refine ⟨fun hnil => hfill (hnil ▸ h), List.all_eq_true.mpr fun c hc => ?_⟩
        exact isWordChar_of (by decide) (List.all_eq_true.mp (hp.dataFill dataFill h) c hc)
      exact (ReadsAs.option (by decide : IsWord "-p".toList) hword).append .nil
  have hnumbers := (@readsAs_number sh _ (by decide : IsWord "-c".toList)
    (if p.pingRepetitions = 0 then pingDefCount else p.pingRepetitions).toNat).append
    ((@readsAs_number sh _ (by decide : IsWord "-s".toList)
      (if p.pingDataSize = 0 then pingDefSize else p.pingDataSize).toNat).append .nil)
  refine .flatten_append (.flatten_append (.flatten_append hnumbers ?_) hdataFill) ?_
  · exact .flatten_ite _ ((readsAs_number (by decide : IsWord "-i".toList) _).append .nil) .nil
  · exact .flatten_ite _ readsAs_ipv4Options .nil

/-- The length of the parameter string. -/
def paramLength (p : PingEntry) : ℕ :=
  2 + (if p.isBcast then 3 else 0) + (p.pingTarget.getD []).length + p.optionLength

theorem length_paramOf :
    (paramOf (if p.isBcast then ["-b ".toList] else []) p.pingTarget p.options).length
      = p.paramLength := by
  rw [paramOf]
  simp only [List.length_append, List.length_cons, List.length_nil, length_options,
    length_flatten_ite, paramLength]
  split <;> simp <;> omega

theorem frontReadsAs :
    FrontReadsAs sh (if p.isBcast then ["-b ".toList] else [])
      (if p.isBcast then ["-b".toList] else []) := by
  split
  · exact ⟨⟨" -b".toList, rfl, .word (by decide : IsWord "-b".toList)⟩, by decide⟩
  · exact ⟨⟨[], rfl, .nil⟩, rfl⟩

theorem Checked.runsTool_iff {os : Namespaces} (hp : p.Checked)
    (htarget : ∀ target ∈ p.pingTarget, IsTarget target) (hfill : p.pingDataFill ≠ some []) :
    RunsTool sh os (enteredFor p.mgmt p.vrfN) p.words (pingMain true (some p))
      ↔ os.Enters p.mgmt (namespaceOf p.mgmt p.vrfN) ∧
        p.tool.length + 1 + p.paramLength < buffsize ∧
        ∀ target ∈ p.pingTarget, target.all isWordChar = true := by
  have htool : p.tool ∈ nwdiagTools := by
    rw [tool]
    split <;> decide
  rw [← length_paramOf]
  exact runsTool_words_iff (pingMain_eq p) hp.vrf htool frontReadsAs htarget hp.isLiteral_options
    rfl (hp.readsAs_options hfill)

end PingEntry

namespace TracerouteEntry

variable {p : TracerouteEntry} {sh : Shell}

/-- The words of the options of IPv4. -/
def ipv4Words (p : TracerouteEntry) : List CString :=
  ["-f".toList,
      decimal (if p.tracerouteMinttl = 0 then traceDefMinttl else p.tracerouteMinttl).toNat]
    ++ (p.tracerouteLoosesourceIp.elim [] fun looseIp => ["-g".toList, looseIp])

/-- The words of the options. -/
def optionWords (p : TracerouteEntry) : List CString :=
  ["-p".toList,
      decimal (if p.tracerouteDstport = 0 then traceDefPort else p.tracerouteDstport).toNat,
    "-m".toList,
      decimal (if p.tracerouteMaxttl = 0 then traceDefMaxttl else p.tracerouteMaxttl).toNat,
    "-q".toList,
      decimal (if p.tracerouteProbes = 0 then traceDefProbes else p.tracerouteProbes).toInt32.toInt,
    "-w".toList,
      decimal (if p.tracerouteTimeout = 0 then traceDefWait else p.tracerouteTimeout).toNat]
    ++ (if p.isIpv4 then p.ipv4Words else [])

/-- The call of the tool that the entry stands for. -/
def words (p : TracerouteEntry) : List CString :=
  p.tool :: (p.tracerouteTarget.toList ++ p.optionWords)

theorem Checked.readsAs_ipv4Options (hp : p.Checked) :
    ReadsAs sh p.ipv4Options.flatten p.ipv4Words := by
  refine (readsAs_number (by decide : IsWord "-f".toList) _).append ?_
  cases h : p.tracerouteLoosesourceIp with
  | none => exact .nil
  | some looseIp =>
    have haddr := hp.looseIp looseIp h
    have hword : IsWord looseIp := by
      refine ⟨fun hnil => ?_, List.all_eq_true.mpr fun c hc => ?_⟩
      · rw [hnil] at haddr
        exact absurd haddr (by decide)
      · exact isWordChar_of (by decide)
          (List.all_eq_true.mp (Libc.text_of_inetPton haddr).2 c hc)
    exact (ReadsAs.option (by decide : IsWord "-g".toList) hword).append .nil

theorem Checked.readsAs_options (hp : p.Checked) :
    ReadsAs sh p.options.flatten p.optionWords := by
  refine .flatten_append ?_ (.flatten_ite _ hp.readsAs_ipv4Options .nil)
  refine (readsAs_number (by decide : IsWord "-p".toList) _).append ?_
  refine (readsAs_number (by decide : IsWord "-m".toList) _).append ?_
  refine (readsAs_number (by decide : IsWord "-q".toList) _).append ?_
  exact (readsAs_number (by decide : IsWord "-w".toList) _).append .nil

/-- The parameter string always fits. -/
theorem Checked.length_paramOf (hp : p.Checked) :
    p.tool.length + 1 + (paramOf [] p.tracerouteTarget p.options).length < buffsize := by
  have htool : p.tool.length ≤ 11 := by
    rw [tool]
    split <;> decide
  have htarget : (p.tracerouteTarget.getD []).length ≤ tracerouteMaxHostnameLength := by
    cases h : p.tracerouteTarget with
    | none => exact Nat.zero_le _
    | some target => exact hp.target target h
  have hoptions := hp.length_options
  rw [tracerouteMaxHostnameLength] at htarget
  rw [paramOf, buffsize]
  simp only [List.length_append, List.length_cons, List.flatten_nil, List.length_nil]
  omega

theorem Checked.runsTool_iff {os : Namespaces} (hp : p.Checked)
    (htarget : ∀ target ∈ p.tracerouteTarget, IsTarget target) :
    RunsTool sh os (enteredFor p.mgmt p.vrfN) p.words (tracerouteHandler true (some p))
      ↔ os.Enters p.mgmt (namespaceOf p.mgmt p.vrfN) ∧
        ∀ target ∈ p.tracerouteTarget, target.all isWordChar = true := by
  have htool : p.tool ∈ nwdiagTools := by
    rw [tool]
    split <;> decide
  have h := @Diagtools.runsTool_words_iff sh os p.tool [] p.tracerouteTarget p.options _ p.mgmt
    p.vrfN [] p.optionWords (tracerouteHandler_eq p) hp.vrf htool ⟨⟨[], rfl, .nil⟩, rfl⟩ htarget
    hp.isLiteral_options rfl hp.readsAs_options
  exact h.trans (and_congr_right fun _ => and_iff_right hp.length_paramOf)

end TracerouteEntry

end Diagtools
end IpApps
