import RustSbi.DeviceTree.Plan

/-!
The tokens of a structure block. A walk that returns has read the block as a
sequence of tokens up to `END`, and its visitor has been shown each of them in turn;
and a block that is spelled so is walked so.
-/

namespace RustSbi.DeviceTree

open Bytes

/-! ## Tokens and their spelling -/

/-- The tokens of a structure block before `END`. -/
inductive Token
  | beginNode (name : ByteString)
  | property (name value : ByteString)
  | endNode
  | nop
  deriving DecidableEq, Repr

/-- The bytes of a token, with its padding; a property names its string by offset. -/
inductive Spells (strings : ByteString) : ByteString → Token → Prop
  | beginNode {name raw : ByteString} (text : CString name raw) (utf8 : isUtf8 name = true) :
      Spells strings (beBytes 4 beginNodeWord ++ raw) (.beginNode name)
  | property {name value raw : ByteString} {nameOffset : Nat} (text : NameAt strings nameOffset name)
      (offset : nameOffset < 2 ^ 32) (length : value.length < 2 ^ 32) (padded : Padded value raw) :
      Spells strings (beBytes 4 propertyWord ++ (beBytes 4 value.length ++
        (beBytes 4 nameOffset ++ raw))) (.property name value)
  | endNode : Spells strings (beBytes 4 endNodeWord) .endNode
  | nop : Spells strings (beBytes 4 nopWord) .nop

/-- A token with its bytes. -/
structure Lexeme where
  raw : ByteString
  token : Token

/-- The bytes of a sequence of tokens. -/
def rawBytes (lexemes : List Lexeme) : ByteString := lexemes.flatMap Lexeme.raw

/-- The sequence is spelled over a strings block. -/
def Spelled (strings : ByteString) (lexemes : List Lexeme) : Prop :=
  ∀ lexeme ∈ lexemes, Spells strings lexeme.raw lexeme.token

theorem Spells.length_pos {strings raw : ByteString} {token : Token} (h : Spells strings raw token) :
    0 < raw.length := by
  cases h <;> simp

theorem Padded.four_dvd {value raw : ByteString} (h : Padded value raw) : 4 ∣ raw.length := by
  obtain ⟨-, -, hlen⟩ := h
  rw [hlen]
  exact dvd_roundUp _ _

theorem Spells.four_dvd {strings raw : ByteString} {token : Token} (h : Spells strings raw token) :
    4 ∣ raw.length := by
  cases h with
  | beginNode text utf8 =>
    have hdvd := Padded.four_dvd text.1
    rw [List.length_append, length_beBytes]
    omega
  | property text offset length padded =>
    have hdvd := Padded.four_dvd padded
    simp only [List.length_append, length_beBytes]
    omega
  | endNode => simp
  | nop => simp

/-- Strings that a block grows by keep the names before them. -/
theorem NameAt.append {strings name : ByteString} {offset : Nat} (h : NameAt strings offset name)
    (more : ByteString) : NameAt (strings ++ more) offset name := by
  obtain ⟨⟨before, after, rfl, hlen⟩, hzero, hutf8⟩ := h
  exact ⟨⟨before, after ++ more, by simp, hlen⟩, hzero, hutf8⟩

theorem Spells.append {strings raw : ByteString} {token : Token} (h : Spells strings raw token)
    (more : ByteString) : Spells (strings ++ more) raw token := by
  cases h with
  | beginNode text utf8 => exact .beginNode text utf8
  | property text offset length padded => exact .property (text.append more) offset length padded
  | endNode => exact .endNode
  | nop => exact .nop

/-! ## Visits -/

section Visits

variable {σ ρ : Type} {xlen : Xlen} {structureBlock strings : ByteString} {visitor : Visitor σ ρ}

/-- What a visitor does at a token that stands from `offset` up to `stop`. -/
def Visitor.onToken (visitor : Visitor σ ρ) (offset stop : Nat) (token : Token) (s : σ) :
    Fallible σ :=
  match token with
  | .beginNode name => visitor.beginNode offset name s
  | .property name value => do
    visitor.checkProperty s
    visitor.property name value s
  | .endNode => visitor.endNode offset stop s
  | .nop => .ok s

/-- A visit of a sequence of tokens from an offset. -/
def Visitor.visit (visitor : Visitor σ ρ) : List Lexeme → Nat → σ → Fallible σ
  | [], _, s => .ok s
  | lexeme :: rest, offset, s => do
    let s ← visitor.onToken offset (offset + lexeme.raw.length) lexeme.token s
    visitor.visit rest (offset + lexeme.raw.length) s

theorem Visitor.visit_append (visitor : Visitor σ ρ) (a b : List Lexeme) (offset : Nat) (s : σ) :
    visitor.visit (a ++ b) offset s =
      visitor.visit a offset s >>= visitor.visit b (offset + (rawBytes a).length) := by
  induction a generalizing offset s with
  | nil => rfl
  | cons lexeme rest ih =>
    have hlen : offset + (rawBytes (lexeme :: rest)).length =
        offset + lexeme.raw.length + (rawBytes rest).length := by
      rw [rawBytes, List.flatMap_cons, List.length_append, Nat.add_assoc]
      rfl
    rw [List.cons_append, Visitor.visit, Visitor.visit, bind_assoc, hlen]
    simp only [ih]

theorem takeProperty_eq_ok_iff {name value : ByteString} {offset next : Nat} :
    takeProperty xlen structureBlock strings offset = .ok (name, value, next) ↔
      ∃ nameOffset raw, NameAt strings nameOffset name ∧ nameOffset < 2 ^ 32 ∧
        value.length < 2 ^ 32 ∧ Padded value raw ∧
        StandsAt structureBlock offset
          (beBytes 4 value.length ++ (beBytes 4 nameOffset ++ raw)) ∧
        next = offset + 4 + 4 + raw.length ∧ value.length + 3 < xlen.words ∧ next < xlen.words := by
  simp only [takeProperty, bind_eq_ok_iff, Prod.exists, pure_eq_ok_iff, Prod.mk.injEq,
    takeU32_eq_ok_iff, takeAligned_eq_ok_iff, stringAt_eq_ok_iff, standsAt_append_iff,
    length_beBytes]
  constructor
  · rintro ⟨_, _, ⟨hlength, hfirst, rfl, -⟩, nameOffset, _, ⟨hoffset, hsecond, rfl, -⟩, _, _,
      ⟨raw, hpadded, rfl, hstands, rfl, hthree, hword⟩, _, hname, rfl, rfl, rfl⟩
    exact ⟨nameOffset, raw, hname, hoffset, hlength, hpadded, ⟨hfirst, hsecond, hstands⟩, rfl, hthree,
      hword⟩
  · rintro ⟨nameOffset, raw, hname, hoffset, hlength, hpadded, ⟨hfirst, hsecond, hstands⟩, rfl,
      hthree, hword⟩
    exact ⟨_, _, ⟨hlength, hfirst, rfl, by omega⟩, nameOffset, _, ⟨hoffset, hsecond, rfl, by omega⟩,
      _, _, ⟨raw, hpadded, rfl, hstands, rfl, hthree, hword⟩, _, hname, rfl, rfl, rfl⟩

/-- A round that goes on has read one token. -/
theorem Visitor.round_token {offset next : Nat} {s s' : σ}
    (h : visitor.round xlen structureBlock strings offset s = .ok (.inr (next, s'))) :
    ∃ raw token, Spells strings raw token ∧ StandsAt structureBlock offset raw ∧
      next = offset + raw.length ∧ visitor.onToken offset next token s = .ok s' := by
  simp only [Visitor.round, bind_eq_ok_iff, Prod.exists] at h
  obtain ⟨token, offset', htoken, h⟩ := h
  obtain ⟨-, hword, rfl, -⟩ := takeU32_eq_ok_iff.mp htoken
  split at h
  · next hbegin =>
    simp only [bind_eq_ok_iff, Prod.exists, pure_eq_ok_iff, Sum.inr.injEq, Prod.mk.injEq] at h
    obtain ⟨name, _, hname, _, hvisit, rfl, rfl⟩ := h
    obtain ⟨raw, htext, hutf8, hstands, rfl, -⟩ := takeCString_eq_ok_iff.mp hname
    subst hbegin
    refine ⟨_, _, .beginNode htext hutf8, standsAt_append_iff.mpr ⟨hword, ?_⟩, ?_, hvisit⟩
    · rwa [length_beBytes]
    · rw [List.length_append, length_beBytes, Nat.add_assoc]
  split at h
  · next hproperty =>
    simp only [bind_eq_ok_iff, Prod.exists, pure_eq_ok_iff, Sum.inr.injEq, Prod.mk.injEq] at h
    obtain ⟨u, hcheck, name, value, _, hread, _, hvisit, rfl, rfl⟩ := h
    obtain ⟨nameOffset, raw, hname, hoffset, hlength, hpadded, hstands, rfl, -, -⟩ :=
      takeProperty_eq_ok_iff.mp hread
    subst hproperty
    refine ⟨_, _, .property hname hoffset hlength hpadded, standsAt_append_iff.mpr ⟨hword, ?_⟩, ?_,
      bind_eq_ok_iff.mpr ⟨u, hcheck, hvisit⟩⟩
    · rwa [length_beBytes]
    · simp only [List.length_append, length_beBytes]
      omega
  split at h
  · next hend =>
    simp only [bind_eq_ok_iff, pure_eq_ok_iff, Sum.inr.injEq, Prod.mk.injEq] at h
    obtain ⟨_, hvisit, rfl, rfl⟩ := h
    subst hend
    exact ⟨_, _, .endNode, hword, by rw [length_beBytes], hvisit⟩
  split at h
  · next hnop =>
    simp only [pure_eq_ok_iff, Sum.inr.injEq, Prod.mk.injEq] at h
    obtain ⟨rfl, rfl⟩ := h
    subst hnop
    exact ⟨_, _, .nop, hword, by rw [length_beBytes], rfl⟩
  split at h
  · simp only [bind_eq_ok_iff, pure_eq_ok_iff, reduceCtorEq, and_false, exists_false] at h
  · simp at h

/-- A round that ends the walk has read `END`. -/
theorem Visitor.round_end {offset : Nat} {s : σ} {result : ρ}
    (h : visitor.round xlen structureBlock strings offset s = .ok (.inl result)) :
    StandsAt structureBlock offset (beBytes 4 endWord) ∧
      visitor.finish (offset + 4) s = .ok result := by
  simp only [Visitor.round, bind_eq_ok_iff, Prod.exists] at h
  obtain ⟨token, offset', htoken, h⟩ := h
  obtain ⟨-, hword, rfl, -⟩ := takeU32_eq_ok_iff.mp htoken
  split at h
  · simp only [bind_eq_ok_iff, pure_eq_ok_iff, reduceCtorEq, and_false, exists_false] at h
  split at h
  · simp only [bind_eq_ok_iff, pure_eq_ok_iff, reduceCtorEq, and_false, exists_false] at h
  split at h
  · simp only [bind_eq_ok_iff, pure_eq_ok_iff, reduceCtorEq, and_false, exists_false] at h
  split at h
  · simp only [pure_eq_ok_iff, reduceCtorEq] at h
  split at h
  · next hend =>
    simp only [bind_eq_ok_iff, pure_eq_ok_iff, Sum.inl.injEq] at h
    obtain ⟨_, hfinish, rfl⟩ := h
    subst hend
    exact ⟨hword, hfinish⟩
  · simp at h

/-- A token in the block is read, whatever the visitor does with it. -/
theorem Visitor.round_of_spells (hroom : structureBlock.length < xlen.words) {offset : Nat}
    {raw : ByteString} {token : Token} (hspells : Spells strings raw token)
    (hstands : StandsAt structureBlock offset raw) (s : σ) :
    visitor.round xlen structureBlock strings offset s = do
      let s' ← visitor.onToken offset (offset + raw.length) token s
      return .inr (offset + raw.length, s') := by
  have hle := hstands.le_length
  cases hspells with
  | beginNode text utf8 =>
    next name raw =>
    obtain ⟨hword, hraw⟩ := standsAt_append_iff.mp hstands
    rw [length_beBytes] at hraw
    rw [List.length_append, length_beBytes] at hle
    have hname : name.length + 1 ≤ raw.length := by
      obtain ⟨⟨pad, rfl, -⟩, -⟩ := text
      simp only [List.length_append, List.length_singleton]
      omega
    have htake : takeU32 xlen structureBlock offset = .ok (beginNodeWord, offset + 4) :=
      takeU32_eq_ok_iff.mpr ⟨by decide, hword, rfl, by omega⟩
    have htext : takeCString xlen structureBlock (offset + 4) = .ok (name, offset + 4 + raw.length) :=
      takeCString_eq_ok_iff.mpr ⟨raw, text, utf8, hraw, rfl, by omega, by omega⟩
    rw [Visitor.round, htake, ok_bind]
    simp only [↓reduceIte, htext, ok_bind, Visitor.onToken, List.length_append, length_beBytes,
      Nat.add_assoc]
  | property text offsetLt length padded =>
    next name value raw nameOffset =>
    obtain ⟨hword, hrest⟩ := standsAt_append_iff.mp hstands
    rw [length_beBytes] at hrest
    simp only [List.length_append, length_beBytes] at hle
    have hvalue : value.length ≤ raw.length := by
      obtain ⟨pad, rfl, -⟩ := padded
      simp
    have htake : takeU32 xlen structureBlock offset = .ok (propertyWord, offset + 4) :=
      takeU32_eq_ok_iff.mpr ⟨by decide, hword, rfl, by omega⟩
    have hread : takeProperty xlen structureBlock strings (offset + 4) =
        .ok (name, value, offset + 4 + 4 + 4 + raw.length) :=
      takeProperty_eq_ok_iff.mpr ⟨nameOffset, raw, text, offsetLt, length, padded, hrest, rfl,
        by omega, by omega⟩
    rw [Visitor.round, htake, ok_bind]
    simp only [show propertyWord ≠ beginNodeWord by decide, ↓reduceIte, hread, ok_bind,
      Visitor.onToken, List.length_append, length_beBytes, Nat.add_assoc, bind_assoc]
  | endNode =>
    rw [length_beBytes] at hle
    have htake : takeU32 xlen structureBlock offset = .ok (endNodeWord, offset + 4) :=
      takeU32_eq_ok_iff.mpr ⟨by decide, hstands, rfl, by omega⟩
    rw [Visitor.round, htake, ok_bind]
    simp only [show endNodeWord ≠ beginNodeWord by decide, show endNodeWord ≠ propertyWord by decide,
      ↓reduceIte, Visitor.onToken, length_beBytes]
  | nop =>
    rw [length_beBytes] at hle
    have htake : takeU32 xlen structureBlock offset = .ok (nopWord, offset + 4) :=
      takeU32_eq_ok_iff.mpr ⟨by decide, hstands, rfl, by omega⟩
    rw [Visitor.round, htake, ok_bind]
    simp only [show nopWord ≠ beginNodeWord by decide, show nopWord ≠ propertyWord by decide,
      show nopWord ≠ endNodeWord by decide, ↓reduceIte, Visitor.onToken, length_beBytes, ok_bind]

theorem Visitor.round_of_end (hroom : structureBlock.length < xlen.words) {offset : Nat}
    (hstands : StandsAt structureBlock offset (beBytes 4 endWord)) (s : σ) :
    visitor.round xlen structureBlock strings offset s = do
      let result ← visitor.finish (offset + 4) s
      return .inl result := by
  have hle := hstands.le_length
  rw [length_beBytes] at hle
  have htake : takeU32 xlen structureBlock offset = .ok (endWord, offset + 4) :=
    takeU32_eq_ok_iff.mpr ⟨by decide, hstands, rfl, by omega⟩
  rw [Visitor.round, htake, ok_bind]
  simp only [show endWord ≠ beginNodeWord by decide, show endWord ≠ propertyWord by decide,
    show endWord ≠ endNodeWord by decide, show endWord ≠ nopWord by decide, ↓reduceIte]

/-! ## Walks -/

theorem rawBytes_cons (lexeme : Lexeme) (rest : List Lexeme) :
    rawBytes (lexeme :: rest) = lexeme.raw ++ rawBytes rest := rfl

/-- The first round of a walk, and the walk from there. -/
theorem Visitor.walk_unfold {offset : Nat} (h : offset < structureBlock.length) (s : σ) :
    visitor.walk xlen structureBlock strings offset s =
      (visitor.round xlen structureBlock strings offset s >>= fun next =>
        match next with
        | .inl result => .ok result
        | .inr p => visitor.walk xlen structureBlock strings p.1 p.2) := by
  cases hround : visitor.round xlen structureBlock strings offset s with
  | error stop =>
    have hstep : walkStep structureBlock (visitor.round xlen structureBlock strings) (offset, s) =
        .inr (.error stop) := by
      rw [walkStep, if_pos h, hround]
    exact Loop.run_of_inr hstep
  | ok next =>
    cases next with
    | inl result =>
      have hstep : walkStep structureBlock (visitor.round xlen structureBlock strings) (offset, s) =
          .inr (.ok result) := by
        rw [walkStep, if_pos h, hround]
      exact Loop.run_of_inr hstep
    | inr p =>
      have hstep : walkStep structureBlock (visitor.round xlen structureBlock strings) (offset, s) =
          .inl p := by
        rw [walkStep, if_pos h, hround]
      exact Loop.run_of_inl hstep

theorem Visitor.lt_length_of_walk {offset : Nat} {s : σ} {result : ρ}
    (h : visitor.walk xlen structureBlock strings offset s = .ok result) :
    offset < structureBlock.length := by
  by_contra hge
  have hstep : walkStep structureBlock (visitor.round xlen structureBlock strings) (offset, s) =
      .inr (fail .invalidArgs) := by
    rw [walkStep, if_neg hge]
  rw [Visitor.walk, Loop.run_of_inr hstep] at h
  exact fail_ne_ok h

/-- A walk that returns has read tokens up to `END`. -/
theorem Visitor.tokens_of_walk {offset : Nat} {s : σ} {result : ρ}
    (h : visitor.walk xlen structureBlock strings offset s = .ok result) :
    ∃ lexemes, Spelled strings lexemes ∧
      StandsAt structureBlock offset (rawBytes lexemes ++ beBytes 4 endWord) := by
  have hlt := Visitor.lt_length_of_walk h
  induction hn : structureBlock.length - offset using Nat.strong_induction_on
    generalizing offset s with
  | _ n ih =>
    rw [Visitor.walk_unfold hlt, bind_eq_ok_iff] at h
    obtain ⟨next, hround, hwalk⟩ := h
    cases next with
    | inl result => exact ⟨[], by simp [Spelled], (visitor.round_end hround).1⟩
    | inr p =>
      obtain ⟨raw, token, hspells, hraw, hnext, -⟩ := visitor.round_token hround
      have hpos := hspells.length_pos
      have hlt' := Visitor.lt_length_of_walk hwalk
      obtain ⟨lexemes, hspelled, hstands⟩ := ih _ (by omega) hwalk hlt' rfl
      refine ⟨⟨raw, token⟩ :: lexemes, List.forall_mem_cons.mpr ⟨hspells, hspelled⟩, ?_⟩
      rw [rawBytes_cons, List.append_assoc]
      exact standsAt_append_iff.mpr ⟨hraw, hnext ▸ hstands⟩

/-- A walk over tokens up to `END` visits them and finishes. -/
theorem Visitor.walk_eq (hroom : structureBlock.length < xlen.words) {lexemes : List Lexeme}
    (hspelled : Spelled strings lexemes) {offset : Nat}
    (hstands : StandsAt structureBlock offset (rawBytes lexemes ++ beBytes 4 endWord)) (s : σ) :
    visitor.walk xlen structureBlock strings offset s =
      visitor.visit lexemes offset s >>=
        visitor.finish (offset + (rawBytes lexemes).length + 4) := by
  induction lexemes generalizing offset s with
  | nil =>
    have hend : StandsAt structureBlock offset (beBytes 4 endWord) := hstands
    have hle := hend.le_length
    rw [length_beBytes] at hle
    rw [Visitor.walk_unfold (by omega), visitor.round_of_end hroom hend, bind_assoc]
    exact bind_pure (visitor.finish (offset + 4) s)
  | cons lexeme rest ih =>
    obtain ⟨hspells, hspelled⟩ := List.forall_mem_cons.mp hspelled
    rw [rawBytes_cons, List.append_assoc] at hstands
    obtain ⟨hraw, hrest⟩ := standsAt_append_iff.mp hstands
    have hle := hraw.le_length
    have hpos := hspells.length_pos
    rw [Visitor.walk_unfold (by omega), visitor.round_of_spells hroom hspells hraw, bind_assoc,
      Visitor.visit, bind_assoc, rawBytes_cons, List.length_append, ← Nat.add_assoc]
    exact bind_congr fun s' => ih hspelled hrest s'

end Visits

end RustSbi.DeviceTree
