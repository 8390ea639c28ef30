import Fish.Instruction

/-!
The table of instructions, read backwards. Each instruction but the blank one is written as one
character, the digits among them; what is neither such a character nor blank stands for nothing.
-/

namespace Fish

/-- The character of a digit. -/
theorem digitChar_of_digit? {c : Char} {digit : Fin 16} (h : digit? c = some digit) :
    Nat.digitChar digit = c := by
  unfold digit? at h
  split at h <;> cases h <;> rfl

namespace StackInstruction

/-- The character that an instruction is written as. -/
def symbol : StackInstruction → Char
  | .push digit => Nat.digitChar digit
  | .combine .add => '+'
  | .combine .sub => '-'
  | .combine .mul => '*'
  | .combine .div => ','
  | .combine .rem => '%'
  | .combine .equal => '='
  | .combine .greater => ')'
  | .combine .less => '('
  | .duplicate => ':'
  | .discard => '~'
  | .swap2 => '$'
  | .swap3 => '@'
  | .shiftRight => '}'
  | .shiftLeft => '{'
  | .reverse => 'r'
  | .size => 'l'
  | .toggleRegister => '&'
  | .openStack => '['
  | .closeStack => ']'

theorem ofChar?_symbol (instruction : StackInstruction) :
    Instruction.ofChar? instruction.symbol = some (.stack instruction) := by
  have hdigits : ∀ digit : Fin 16,
      Instruction.ofChar? (Nat.digitChar digit) = some (.stack (.push digit)) := by decide
  cases instruction with
  | push digit => exact hdigits digit
  | combine op => cases op <;> rfl
  | _ => rfl

theorem symbol_of_ofSymbol? {c : Char} {instruction : StackInstruction}
    (h : ofSymbol? c = some instruction) : instruction.symbol = c := by
  unfold ofSymbol? at h
  split at h <;> cases h <;> rfl

end StackInstruction

def Direction.symbol : Direction → Char
  | up => '^'
  | down => 'v'
  | left => '<'
  | right => '>'

def Mirror.symbol : Mirror → Char
  | slash => '/'
  | backslash => '\\'
  | vertical => '|'
  | horizontal => '_'
  | both => '#'

theorem Mirror.symbol_of_ofChar? {c : Char} {m : Mirror} (h : ofChar? c = some m) :
    m.symbol = c := by
  unfold ofChar? at h
  split at h <;> cases h <;> rfl

namespace Instruction

/-- The character that an instruction is written as. Many stand for doing nothing. -/
def symbol? : Instruction → Option Char
  | .stack instruction => some instruction.symbol
  | .turn d => some d.symbol
  | .turnRandomly => some 'x'
  | .reflect m => some m.symbol
  | .skip => some '!'
  | .skipIfZero => some '?'
  | .jump => some '.'
  | .quote q => some q.char
  | .writeNumber => some 'n'
  | .writeChar => some 'o'
  | .readChar => some 'i'
  | .fetch => some 'g'
  | .halt => some ';'
  | .blank => none

/-- The characters of the table of instructions, apart from the blank ones. -/
def symbols : List Char :=
  ['0', '1', '2', '3', '4', '5', '6', '7', '8', '9', 'a', 'b', 'c', 'd', 'e', 'f',
    '+', '-', '*', ',', '%', '=', ')', '(', ':', '~', '$', '@', '}', '{', 'r', 'l', '&', '[', ']',
    '>', '<', '^', 'v', 'x', '/', '\\', '|', '_', '#', '!', '?', '.', '"', '\'',
    'n', 'o', 'i', 'g', ';']

theorem symbol?_of_ofSymbol? {c : Char} {instruction : Instruction}
    (h : ofSymbol? c = some instruction) : instruction.symbol? = some c := by
  unfold ofSymbol? at h
  split at h <;> cases h <;> rfl

/-- A character is a symbol of the instruction that it stands for, unless it is blank. -/
theorem symbol?_of_ofChar? {c : Char} {instruction : Instruction}
    (h : ofChar? c = some instruction) :
    instruction.symbol? = some c ∨
      instruction = .blank ∧ (Text.isBlank c = true ∨ c = '\x00') := by
  simp only [ofChar?, Option.orElse_eq_orElse, Option.orElse_eq_or, Option.or_eq_some_iff,
    Option.map_eq_some_iff] at h
  rcases h with ⟨digit, hdigit, rfl⟩ | ⟨-, ⟨stack, hstack, rfl⟩ | ⟨-, ⟨m, hmirror, rfl⟩ | ⟨-, h⟩⟩⟩
  · exact .inl (congrArg some (digitChar_of_digit? hdigit))
  · exact .inl (congrArg some (StackInstruction.symbol_of_ofSymbol? hstack))
  · exact .inl (congrArg some (Mirror.symbol_of_ofChar? hmirror))
  · rcases h with hsymbol | ⟨-, hblank⟩
    · exact .inl (symbol?_of_ofSymbol? hsymbol)
    · split at hblank <;> cases hblank
      rename_i h
      exact .inr ⟨rfl, by simpa using h⟩

theorem symbol_mem_symbols (instruction : StackInstruction) : instruction.symbol ∈ symbols := by
  have hdigits : ∀ digit : Fin 16, Nat.digitChar digit ∈ symbols := by decide
  cases instruction with
  | push digit => exact hdigits digit
  | combine op => cases op <;> decide
  | _ => decide

theorem mem_symbols {c : Char} {instruction : Instruction} (h : instruction.symbol? = some c) :
    c ∈ symbols := by
  cases instruction with
  | stack instruction =>
    cases h
    exact symbol_mem_symbols instruction
  | turn d => cases d <;> cases h <;> decide
  | reflect m => cases m <;> cases h <;> decide
  | quote q => cases q <;> cases h <;> decide
  | blank => cases h
  | _ =>
    cases h
    decide

/-- No symbol is blank, and all of them stand for something. -/
theorem ofChar?_of_mem {c : Char} (h : c ∈ symbols) :
    ofChar? c ≠ none ∧ ofChar? c ≠ some .blank := by
  have hall : symbols.all fun c => ofChar? c ≠ none ∧ ofChar? c ≠ some .blank := by decide
  exact of_decide_eq_true (List.all_eq_true.mp hall c h)

theorem ofChar?_eq_none_iff (c : Char) :
    ofChar? c = none ↔ c ∉ symbols ∧ Text.isBlank c = false ∧ c ≠ '\x00' := by
  constructor
  · intro h
    refine ⟨fun hmem => (ofChar?_of_mem hmem).1 h, ?_⟩
    simp only [ofChar?, Option.orElse_eq_orElse, Option.orElse_eq_or, Option.or_eq_none_iff] at h
    obtain ⟨-, -, -, -, hblank⟩ := h
    split at hblank
    · cases hblank
    · rename_i hnot
      simpa using hnot
  · rintro ⟨hnot, hblank, hnul⟩
    cases h : ofChar? c with
    | none => rfl
    | some instruction =>
      rcases symbol?_of_ofChar? h with hsymbol | ⟨-, hblank' | hnul'⟩
      · exact absurd (mem_symbols hsymbol) hnot
      · cases hblank.symm.trans hblank'
      · exact absurd hnul' hnul

end Instruction

end Fish
