/-!
# Commands to a terminal

A text that is printed on a terminal may hold commands to it: control characters, escape sequences,
which a final character ends, and strings, which a terminator ends. `withoutCommands` takes them out
of a text, one character at a time, with the `CommandState` of the text so far carried along.

The white space among the control characters is printed, except in a string. In an escape sequence
it begins a piece of text that is printed as well, up to the next control character, with which the
sequence goes on; a character beyond ASCII in that piece ends the sequence.

Only what can be printed is left (`shows_of_mem_withoutCommands`), and of a text that is nothing
else, all of it (`withoutCommands_eq_self`). This is for the outer layer of a program, where texts
are repeated that have not been understood; nothing else depends on it.
-/

namespace Iapx86

namespace Text

/-- Whether a character has a number between two others. -/
def isBetween (first last : Nat) (c : Char) : Bool := first ≤ c.toNat && c.toNat ≤ last

/-- Whether a control character is white space: tab, line feed, form feed or carriage return. -/
def isLayout (c : Char) : Bool := c ∈ ['\t', '\n', '\x0c', '\r']

/-- Whether a character by itself is no command. -/
def shows (c : Char) : Bool := isLayout c || (0x20 ≤ c.toNat && c.toNat ≠ 0x7F)

/-- Which command a text is in. -/
inductive CommandState where
  | outside
  /-- After the escape character. -/
  | escape
  /-- In an escape sequence, after an intermediate character. -/
  | intermediate
  /-- In a control sequence. -/
  | sequence
  /-- In a command to the operating system, which the bell ends. -/
  | systemCommand
  /-- In a device control string, before its parameters. -/
  | deviceEntry
  /-- In a device control string, among its parameters. -/
  | deviceParameters
  /-- In a device control string, after an intermediate character. -/
  | deviceIntermediate
  /-- In the body of a string. -/
  | string
  deriving DecidableEq, Repr

namespace CommandState

/-- What the character after the escape character begins. -/
def afterEscape (c : Char) : CommandState :=
  match c with
  | '[' => sequence
  | ']' => systemCommand
  | 'P' => deviceEntry
  | 'X' | '^' | '_' => string
  | c =>
      if isBetween 0x30 0x7E c then outside
      else if isBetween 0x20 0x2F c then intermediate
      else escape

/-- Whether the terminator of strings is in the encoding of a character. It is a single byte, which
counts wherever it stands. -/
def holdsTerminator (c : Char) : Bool := 0x9C ∈ String.utf8EncodeChar c

/-- Goes on by one character that is not printed. The escape character begins a command within any
other, and the characters for cancel and substitute end them all. -/
def next (s : CommandState) (c : Char) : CommandState :=
  if c = '\x1b' then escape
  else if c = '\x18' || c = '\x1a' then outside
  else match s with
    | outside => outside
    | escape => afterEscape c
    | intermediate => if isBetween 0x30 0x7E c then outside else intermediate
    | sequence => if isBetween 0x40 0x7E c then outside else sequence
    | systemCommand => if c = '\x07' then outside else systemCommand
    | deviceEntry =>
        if isBetween 0x20 0x2F c then deviceIntermediate
        else if isBetween 0x30 0x3F c then deviceParameters
        else if isBetween 0x40 0x7E c then string
        else deviceEntry
    | deviceParameters =>
        if isBetween 0x20 0x2F c then deviceIntermediate
        else if isBetween 0x3C 0x7E c then string
        else deviceParameters
    | deviceIntermediate => if isBetween 0x30 0x7E c then string else deviceIntermediate
    | string => if holdsTerminator c then outside else string

/-- Goes on by one character that is printed. -/
def nextPrinted (s : CommandState) (c : Char) : CommandState :=
  if c.toNat < 0x80 then s else outside

/-- Whether the next character is printed, when the one before it was or was not. -/
def prints (s : CommandState) (printing : Bool) (c : Char) : Bool :=
  if printing then shows c
  else match s with
    | outside => shows c
    | escape | intermediate | sequence => isLayout c
    | _ => false

end CommandState

/-- The rest of a text without the commands in it, when the character before it was printed or was
not. -/
def withoutCommandsFrom (s : CommandState) (printing : Bool) : List Char → List Char
  | [] => []
  | c :: cs =>
      if s.prints printing c then c :: withoutCommandsFrom (s.nextPrinted c) true cs
      else withoutCommandsFrom (s.next c) false cs

/-- The text without the commands in it. -/
def withoutCommands (cs : List Char) : List Char := withoutCommandsFrom .outside false cs

@[simp] theorem withoutCommandsFrom_nil (s : CommandState) (printing : Bool) :
    withoutCommandsFrom s printing [] = [] := rfl

theorem shows_of_prints {s : CommandState} {printing : Bool} {c : Char}
    (h : s.prints printing c = true) : shows c = true := by
  cases printing <;> cases s <;> simp_all [CommandState.prints, shows]

theorem prints_outside (printing : Bool) (c : Char) :
    CommandState.outside.prints printing c = shows c := by
  cases printing <;> rfl

theorem nextPrinted_outside (c : Char) : CommandState.outside.nextPrinted c = .outside := by
  simp [CommandState.nextPrinted]

theorem shows_of_mem_withoutCommandsFrom {s : CommandState} {printing : Bool} {c : Char}
    {cs : List Char} (h : c ∈ withoutCommandsFrom s printing cs) : shows c = true := by
  induction cs generalizing s printing with
  | nil => simp at h
  | cons d cs ih =>
      by_cases hd : s.prints printing d
      · rw [withoutCommandsFrom, if_pos hd] at h
        rcases List.mem_cons.mp h with hfirst | hrest
        · rw [hfirst]
          exact shows_of_prints hd
        · exact ih hrest
      · rw [withoutCommandsFrom, if_neg hd] at h
        exact ih h

/-- What is left of a text can be printed. -/
theorem shows_of_mem_withoutCommands {c : Char} {cs : List Char} (h : c ∈ withoutCommands cs) :
    shows c = true :=
  shows_of_mem_withoutCommandsFrom h

theorem withoutCommandsFrom_outside_eq_self {cs : List Char} (printing : Bool)
    (h : ∀ c ∈ cs, shows c = true) : withoutCommandsFrom .outside printing cs = cs := by
  induction cs generalizing printing with
  | nil => rfl
  | cons c cs ih =>
      have hc := h c List.mem_cons_self
      rw [withoutCommandsFrom, prints_outside, if_pos hc, nextPrinted_outside,
        ih _ fun d hd => h d (List.mem_cons_of_mem _ hd)]

/-- A text that can be printed holds no commands. -/
theorem withoutCommands_eq_self {cs : List Char} (h : ∀ c ∈ cs, shows c = true) :
    withoutCommands cs = cs :=
  withoutCommandsFrom_outside_eq_self false h

end Text

end Iapx86
