import MessageWire.Command.Arguments
/-!
# Arguments that say what is wanted

An option and its value in one argument are read as they are, whatever the value is (`Arguments.readPart_attach`), and
a number as it is written (`Arguments.number?_toString`). So there are arguments for every payload, routing and number
of copies (`Arguments.parse_encodeArguments`), and for every size of receives (`Arguments.parse_decodeArguments`).
-/

namespace MessageWire.Arguments

/-! ### Options with their values -/

def attach (name value : String) : String := "--" ++ name ++ "=" ++ value

theorem number?_toString {n : Nat} (h : n ≤ maxWord) : number? (toString n) = some n := by
  have hlist : (toString n).toList = Nat.toDigits 10 n := by
    rw [Nat.toString_eq_ofList_toDigits, String.toList_ofList]
  have hdigit : ∀ c ∈ Nat.toDigits 10 n, c.isDigit = true :=
    fun c hc => Nat.isDigit_of_mem_toDigits (by decide) (by decide) hc
  have hvalue : (Nat.toDigits 10 n).foldl (fun m c => 10 * m + (c.toNat - '0'.toNat)) 0 = n :=
    Nat.ofDigitChars_eq_foldl.symm.trans Nat.ofDigitChars_ten_toDigits
  obtain ⟨d, ds, hds⟩ := List.exists_cons_of_ne_nil (Nat.toDigits_ne_nil (n := n) (b := 10))
  have hplus : d ≠ '+' := by
    rintro rfl
    exact absurd (hdigit '+' (hds ▸ List.mem_cons_self)) (by decide)
  have hall := List.all_eq_true.mpr hdigit
  rw [hds] at hlist hvalue hall
  unfold number?
  rw [hlist]
  split
  case h_1 rest heq =>
    cases heq
    exact absurd rfl hplus
  case h_2 =>
    simp only [List.isEmpty_cons, hall, hvalue, if_pos h]
    rfl

theorem ofArgument_attach {name : String} (hname : '=' ∉ name.toList) (value : String) :
    Token.ofArgument (attach name value) = .long name (some value) := by
  have hne : ∀ c ∈ name.toList, decide (c ≠ '=') = true := fun c hc =>
    decide_eq_true fun heq => hname (heq ▸ hc)
  have hlist : (attach name value).toList = '-' :: '-' :: (name.toList ++ '=' :: value.toList) := by
    simp only [attach, String.toList_append, List.append_assoc]
    rfl
  have htake : (name.toList ++ '=' :: value.toList).takeWhile (· ≠ '=') = name.toList := by
    rw [List.takeWhile_append_of_pos hne]
    simp
  have hdrop : (name.toList ++ '=' :: value.toList).dropWhile (· ≠ '=') = '=' :: value.toList := by
    rw [List.dropWhile_append_of_pos hne]
    simp
  unfold Token.ofArgument
  rw [hlist]
  split
  case h_1 h => simp at h
  case h_2 rest _ h =>
    cases h
    simp only [htake, hdrop, String.ofList_toList]
  case h_3 hdash heq =>
    cases heq
    exact absurd rfl hdash
  case h_4 hshort => exact (hshort _ _ rfl).elim

theorem readPart_attach {g : Grammar} {p : Part} {name value : String} (form : OptionForm) {accepts : String → Bool}
    (hname : '=' ∉ name.toList) (hform : g.options.find? (·.long == name) = some form)
    (haccepts : form.accepts? = some accepts) (hvalue : accepts value = true) (hnew : p.has name = false)
    (rest : List String) :
    readPart g p (attach name value :: rest)
      = readPart g { p with options := p.options ++ [(name, value)] } rest := by
  have hlong : form.long = name := by
    have hfound := List.find?_some hform
    exact eq_of_beq hfound
  have hadd : p.addOption form value = .ok { p with options := p.options ++ [(name, value)] } := by
    simp [Part.addOption, haccepts, hvalue, hlong, hnew]
  rw [readPart, ofArgument_attach hname]
  simp only [Grammar.option?, hform, haccepts, Option.getD_some, hadd]

theorem readPart_command {g : Grammar} {p : Part} {name : String} (hword : Token.ofArgument name = .word name)
    (hname : g.commands.contains name = true) (rest : List String) :
    readPart g p (name :: rest) = .ok (p, some (name, rest)) := by
  rw [readPart, hword]
  simp only [hname, if_true]

theorem readPart_word {g : Grammar} {p p' : Part} {word : String} (hword : Token.ofArgument word = .word word)
    (hname : g.commands.contains word = false) (hadd : p.addWord g word = .ok p') (rest : List String) :
    readPart g p (word :: rest) = readPart g p' rest := by
  rw [readPart, hword]
  simp only [hname, hadd]
  rfl

/-! ### Arguments for everything -/

/-- The option that gives a payload, and its value. -/
def givenBy : PayloadSource → String × String
  | .text s => ("data", s)
  | .hex digits => ("hex", digits)
  | .file path => ("file", path)

/-- Arguments for messages on the standard output, or in a file. -/
def encodeArguments (source : PayloadSource) (routing : String) (copies : Nat) (output? : Option String) :
    List String :=
  "encode" :: attach (givenBy source).1 (givenBy source).2 :: attach "routing" routing
    :: attach "repeat" (toString copies) :: (output?.map (attach "output")).toList

/-- Arguments for the payloads of a capture on the standard input, received in pieces of some size. -/
def decodeArguments (chunkSize : Nat) : List String :=
  ["decode", "-", attach "chunk-size" (toString chunkSize), attach "format" "raw"]

/-- A command's name without options in front of it, and what stands behind the name. -/
theorem parse_command {name : String} {rest : List String} {grammar : Grammar} {build : Part → Except Halt Command}
    {part : Part} {further? : Option (String × List String)} {command : Command}
    (hword : Token.ofArgument name = .word name) (hname : leading.commands.contains name = true)
    (hhelp : name ≠ "help")
    (hcommand : commandOf name = .ok (grammar, build)) (hpart : readPart grammar {} rest = .ok (part, further?))
    (hbuild : build part = .ok command) :
    parse (name :: rest) = .ok ⟨command, (part.value? "format").bind format?⟩ := by
  have hother : (name == "help") = false := beq_eq_false_iff_ne.mpr hhelp
  have hformat : (part.value? "format").or (Part.value? {} "format") = part.value? "format" := Option.or_none
  rw [parse, readPart_command hword hname]
  simp only [bind, Except.bind, hother, hcommand, hpart, hbuild, hformat]
  rfl

theorem parse_decodeArguments {chunkSize : Nat} (hpos : 1 ≤ chunkSize) (hmax : chunkSize ≤ maxWord) :
    parse (decodeArguments chunkSize)
      = .ok ⟨.decode ⟨"-", chunkSize, 134217728, "capture", false⟩, some .raw⟩ := by
  have hnumber := number?_toString hmax
  have hpart : readPart decodeGrammar {} ["-", attach "chunk-size" (toString chunkSize), attach "format" "raw"]
      = .ok (⟨[("chunk-size", toString chunkSize), ("format", "raw")], ["-"]⟩, none) := by
    have hword : Part.addWord {} decodeGrammar "-" = .ok ⟨[], ["-"]⟩ := rfl
    have hvalue : (number? (toString chunkSize)).any (1 ≤ ·) = true := by
      rw [hnumber]
      exact decide_eq_true hpos
    rw [readPart_word rfl rfl hword, readPart_attach (numberOption "chunk-size" 1) (by decide) rfl rfl hvalue rfl,
      readPart_attach (choiceOption "format" ["json", "table", "pretty", "raw"]) (by decide) rfl rfl rfl rfl, readPart]
    rfl
  have hbuild : decodeCommand ⟨[("chunk-size", toString chunkSize), ("format", "raw")], ["-"]⟩
      = .ok (.decode ⟨"-", chunkSize, 134217728, "capture", false⟩) := by
    have hsize : numberOr ⟨[("chunk-size", toString chunkSize), ("format", "raw")], ["-"]⟩ "chunk-size" 65536
        = chunkSize := by
      show ((some (toString chunkSize)).bind number?).getD 65536 = chunkSize
      rw [Option.bind_some, hnumber, Option.getD_some]
    unfold decodeCommand
    simp only [hsize]
    rfl
  exact parse_command rfl rfl (by decide) rfl hpart hbuild

def encodePart (source : PayloadSource) (routing : String) (copies : Nat) (output? : Option String) : Part where
  options := [givenBy source, ("routing", routing), ("repeat", toString copies)] ++ (output?.map ("output", ·)).toList

section Encode

variable {source : PayloadSource} {copies : Nat} {output? : Option String} (routing : String)

theorem readPart_encodeArguments (hsource : source ≠ .file "") (hmax : copies ≤ maxWord)
    (houtput : output? ≠ some "") :
    readPart encodeGrammar {} (encodeArguments source routing copies output?).tail
      = .ok (encodePart source routing copies output?, none) := by
  have haccepted {path : String} (hpath : path ≠ "") : (!path.isEmpty) = true := by
    rw [Bool.not_eq_true', Bool.eq_false_iff, ne_eq, String.isEmpty_iff]
    exact hpath
  have hgiven (rest : List String) :
      readPart encodeGrammar {} (attach (givenBy source).1 (givenBy source).2 :: rest)
        = readPart encodeGrammar ⟨[givenBy source], []⟩ rest := by
    cases source with
    | text s => exact readPart_attach (textOption "data") (by decide : '=' ∉ "data".toList) rfl rfl rfl rfl _
    | hex digits => exact readPart_attach (textOption "hex") (by decide : '=' ∉ "hex".toList) rfl rfl rfl rfl _
    | file path =>
      have hpath : path ≠ "" := fun heq => hsource (congrArg _ heq)
      exact readPart_attach (pathOption "file" none) (by decide : '=' ∉ "file".toList) rfl rfl (haccepted hpath) rfl _
  have hrouting : Part.has ⟨[givenBy source], []⟩ "routing" = false := by cases source <;> rfl
  have hrepeat : Part.has ⟨[givenBy source] ++ [("routing", routing)], []⟩ "repeat" = false := by
    cases source <;> rfl
  have hvalue : (number? (toString copies)).any (0 ≤ ·) = true := by
    rw [number?_toString hmax]
    exact decide_eq_true (Nat.zero_le copies)
  rw [encodeArguments, List.tail_cons, hgiven, readPart_attach (textOption "routing") (by decide) rfl rfl rfl hrouting,
    readPart_attach (numberOption "repeat" 0) (by decide) rfl rfl hvalue hrepeat]
  cases output? with
  | none =>
    rw [Option.map_none, Option.toList_none, readPart]
    rfl
  | some path =>
    have hpath : path ≠ "" := fun heq => houtput (congrArg _ heq)
    have houtput :
        Part.has ⟨[givenBy source] ++ [("routing", routing)] ++ [("repeat", toString copies)], []⟩ "output"
        = false := by cases source <;> rfl
    rw [Option.map_some, Option.toList_some,
      readPart_attach (pathOption "output" (some 'o')) (by decide) rfl rfl (haccepted hpath) houtput, readPart]
    rfl

theorem encodeCommand_encodePart (hmax : copies ≤ maxWord) :
    encodeCommand (encodePart source routing copies output?)
      = .ok (.encode ⟨some source, routing, copies, output?⟩) := by
  have hcopies : numberOr (encodePart source routing copies output?) "repeat" 1 = copies := by
    have hlookup : (encodePart source routing copies output?).value? "repeat" = some (toString copies) := by
      cases source <;> rfl
    rw [numberOr, hlookup, Option.bind_some, number?_toString hmax, Option.getD_some]
  unfold encodeCommand
  rw [hcopies]
  cases source <;> cases output? <;> rfl

theorem parse_encodeArguments (hsource : source ≠ .file "") (hmax : copies ≤ maxWord)
    (houtput : output? ≠ some "") :
    parse (encodeArguments source routing copies output?)
      = .ok ⟨.encode ⟨some source, routing, copies, output?⟩, none⟩ := by
  have hparse : parse (encodeArguments source routing copies output?)
      = .ok ⟨_, ((encodePart source routing copies output?).value? "format").bind format?⟩ :=
    parse_command rfl rfl (by decide : ("encode" ≠ "help")) rfl
      (readPart_encodeArguments routing hsource hmax houtput)
      (encodeCommand_encodePart routing hmax)
  have hformat : (encodePart source routing copies output?).value? "format" = none := by
    cases source <;> cases output? <;> rfl
  rw [hparse, hformat]
  rfl

end Encode

end MessageWire.Arguments
