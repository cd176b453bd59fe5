import RustSbi.DeviceTree.Tokens

/-!
What stands in a node: its tokens as a tree. The tokens of a block that validates
nest, so they are the tokens of one root between `NOP`s; the walk of the validator
is then a check of each node by its own properties and children.
-/

namespace RustSbi.DeviceTree

open Bytes

/-! ## Content -/

/-- What stands in a node, or the rest of it; `raw` are the bytes of a token. -/
inductive Content
  | nil
  | nop (rest : Content)
  | property (raw name value : ByteString) (rest : Content)
  | node (raw name : ByteString) (inner rest : Content)

namespace Content

/-- The `END_NODE` token. -/
def endLexeme : Lexeme := ⟨beBytes 4 endNodeWord, .endNode⟩

/-- The `NOP` token. -/
def nopLexeme : Lexeme := ⟨beBytes 4 nopWord, .nop⟩

/-- The tokens of a content. -/
def lexemes : Content → List Lexeme
  | nil => []
  | nop rest => nopLexeme :: rest.lexemes
  | property raw name value rest => ⟨raw, .property name value⟩ :: rest.lexemes
  | node raw name inner rest =>
    ⟨raw, .beginNode name⟩ :: (inner.lexemes ++ endLexeme :: rest.lexemes)

/-- The bytes of a content. -/
def bytes (c : Content) : ByteString := rawBytes c.lexemes

@[simp] theorem bytes_nil : nil.bytes = [] := rfl

@[simp] theorem bytes_nop (rest : Content) : (nop rest).bytes = beBytes 4 nopWord ++ rest.bytes := rfl

@[simp] theorem bytes_property (raw name value : ByteString) (rest : Content) :
    (property raw name value rest).bytes = raw ++ rest.bytes := rfl

@[simp] theorem bytes_node (raw name : ByteString) (inner rest : Content) :
    (node raw name inner rest).bytes =
      raw ++ (inner.bytes ++ (beBytes 4 endNodeWord ++ rest.bytes)) := by
  simp [bytes, rawBytes, lexemes, endLexeme]

/-- One content after another. -/
def append : Content → Content → Content
  | nil, b => b
  | nop rest, b => nop (rest.append b)
  | property raw name value rest, b => property raw name value (rest.append b)
  | node raw name inner rest, b => node raw name inner (rest.append b)

instance : Append Content := ⟨append⟩

@[simp] theorem nil_append (b : Content) : nil ++ b = b := rfl

@[simp] theorem nop_append (rest b : Content) : nop rest ++ b = nop (rest ++ b) := rfl

@[simp] theorem property_append (raw name value : ByteString) (rest b : Content) :
    property raw name value rest ++ b = property raw name value (rest ++ b) := rfl

@[simp] theorem node_append (raw name : ByteString) (inner rest b : Content) :
    node raw name inner rest ++ b = node raw name inner (rest ++ b) := rfl

theorem lexemes_append (a b : Content) : (a ++ b).lexemes = a.lexemes ++ b.lexemes := by
  induction a with
  | nil => rfl
  | nop rest ih => simp [lexemes, ih]
  | property raw name value rest ih => simp [lexemes, ih]
  | node raw name inner rest _ ih => simp [lexemes, ih]

@[simp] theorem bytes_append (a b : Content) : (a ++ b).bytes = a.bytes ++ b.bytes := by
  rw [bytes, lexemes_append, rawBytes, List.flatMap_append]
  rfl

/-- `NOP`s before a content. -/
def nops : Nat → Content → Content
  | 0, rest => rest
  | n + 1, rest => nop (nops n rest)

theorem nops_succ (n : Nat) (rest : Content) : nops (n + 1) rest = nops n (nop rest) := by
  induction n with
  | zero => rfl
  | succ n ih => exact congrArg nop ih

/-- The bytes of tokens of a strings block. -/
def Spelled (strings : ByteString) (c : Content) : Prop :=
  DeviceTree.Spelled strings c.lexemes

@[simp] theorem spelled_nil {strings : ByteString} : nil.Spelled strings := by
  simp [Spelled, DeviceTree.Spelled, lexemes]

@[simp] theorem spelled_nop {strings : ByteString} {rest : Content} :
    (nop rest).Spelled strings ↔ rest.Spelled strings := by
  constructor
  · exact fun h => (List.forall_mem_cons.mp h).2
  · exact fun h => List.forall_mem_cons.mpr ⟨.nop, h⟩

@[simp] theorem spelled_property {strings raw name value : ByteString} {rest : Content} :
    (property raw name value rest).Spelled strings ↔
      Spells strings raw (.property name value) ∧ rest.Spelled strings :=
  List.forall_mem_cons

@[simp] theorem spelled_node {strings raw name : ByteString} {inner rest : Content} :
    (node raw name inner rest).Spelled strings ↔
      Spells strings raw (.beginNode name) ∧ inner.Spelled strings ∧ rest.Spelled strings := by
  rw [Spelled, DeviceTree.Spelled, lexemes, List.forall_mem_cons, List.forall_mem_append,
    List.forall_mem_cons]
  constructor
  · rintro ⟨hbegin, hinner, -, hrest⟩
    exact ⟨hbegin, hinner, hrest⟩
  · rintro ⟨hbegin, hinner, hrest⟩
    exact ⟨hbegin, hinner, .endNode, hrest⟩

@[simp] theorem spelled_append {strings : ByteString} {a b : Content} :
    (a ++ b).Spelled strings ↔ a.Spelled strings ∧ b.Spelled strings := by
  rw [Spelled, lexemes_append]
  exact List.forall_mem_append

@[simp] theorem spelled_nops {strings : ByteString} {n : Nat} {rest : Content} :
    (nops n rest).Spelled strings ↔ rest.Spelled strings := by
  induction n with
  | zero => rfl
  | succ n ih => rw [nops, spelled_nop, ih]

/-- A content stays spelled when the strings block grows. -/
theorem Spelled.extend {strings : ByteString} {c : Content} (h : c.Spelled strings)
    (more : ByteString) : c.Spelled (strings ++ more) :=
  fun lexeme hmem => (h lexeme hmem).append more

theorem Spelled.four_dvd {strings : ByteString} {c : Content} (h : c.Spelled strings) :
    4 ∣ c.bytes.length := by
  induction c with
  | nil => simp
  | nop rest ih =>
    have hrest := ih (spelled_nop.mp h)
    rw [bytes_nop, List.length_append, length_beBytes]
    omega
  | property raw name value rest ih =>
    obtain ⟨hspells, hrest⟩ := spelled_property.mp h
    rw [bytes_property, List.length_append]
    exact Nat.dvd_add hspells.four_dvd (ih hrest)
  | node raw name inner rest ihInner ihRest =>
    obtain ⟨hspells, hinner, hrest⟩ := spelled_node.mp h
    have hbegin := hspells.four_dvd
    have hin := ihInner hinner
    have hout := ihRest hrest
    simp only [bytes_node, List.length_append, length_beBytes]
    omega

theorem bytes_nops (n : Nat) (rest : Content) :
    (nops n rest).bytes = (List.replicate n (beBytes 4 nopWord)).flatten ++ rest.bytes := by
  induction n with
  | zero => rfl
  | succ n ih => simp [nops, ih, List.replicate_succ]

theorem length_bytes_nops (n : Nat) (rest : Content) :
    (nops n rest).bytes.length = 4 * n + rest.bytes.length := by
  induction n with
  | zero => simp [nops]
  | succ n ih =>
    rw [nops, bytes_nop, List.length_append, length_beBytes, ih]
    omega

end Content

/-! ## Visits of a content -/

section Visits

variable {σ ρ : Type} {visitor : Visitor σ ρ}

/-- The visit of the tokens of a content. -/
def Visitor.visitContent (visitor : Visitor σ ρ) (c : Content) (offset : Nat) (s : σ) : Fallible σ :=
  visitor.visit c.lexemes offset s

@[simp] theorem Visitor.visitContent_nil (offset : Nat) (s : σ) :
    visitor.visitContent .nil offset s = .ok s := rfl

@[simp] theorem Visitor.visitContent_nop (rest : Content) (offset : Nat) (s : σ) :
    visitor.visitContent (.nop rest) offset s = visitor.visitContent rest (offset + 4) s := by
  simp [visitContent, Content.lexemes, visit, onToken, Content.nopLexeme]

@[simp] theorem Visitor.visitContent_property (raw name value : ByteString) (rest : Content)
    (offset : Nat) (s : σ) :
    visitor.visitContent (.property raw name value rest) offset s = (do
      visitor.checkProperty s
      let s ← visitor.property name value s
      visitor.visitContent rest (offset + raw.length) s) := by
  simp only [visitContent, Content.lexemes, visit, onToken, bind_assoc]

@[simp] theorem Visitor.visitContent_node (raw name : ByteString) (inner rest : Content)
    (offset : Nat) (s : σ) :
    visitor.visitContent (.node raw name inner rest) offset s = (do
      let s ← visitor.beginNode offset name s
      let s ← visitor.visitContent inner (offset + raw.length) s
      let s ← visitor.endNode (offset + raw.length + inner.bytes.length)
        (offset + raw.length + inner.bytes.length + 4) s
      visitor.visitContent rest (offset + raw.length + inner.bytes.length + 4) s) := by
  simp only [visitContent, Content.lexemes, visit, onToken, visit_append, Content.endLexeme,
    length_beBytes, Content.bytes]

theorem Visitor.visitContent_nops (n : Nat) (rest : Content) (offset : Nat) (s : σ) :
    visitor.visitContent (.nops n rest) offset s = visitor.visitContent rest (offset + 4 * n) s := by
  induction n generalizing offset with
  | zero => rfl
  | succ n ih =>
    have hoffset : offset + 4 + 4 * n = offset + 4 * (n + 1) := by omega
    rw [Content.nops, visitContent_nop, ih, hoffset]

end Visits

end RustSbi.DeviceTree
