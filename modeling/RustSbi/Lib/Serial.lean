import RustSbi.Lib.Checked

/-!
Transfers over a serial line that is polled. A loop takes elements off the line, or puts
elements on it, one after another for as long as the line is ready. The other end may act at
every access, so a step says what has gone over the line and nothing of what waits on it.
-/

namespace Serial

open Checked

variable {σ β ε : Type}

/-- What has gone over a line so far, in both directions. -/
structure Line (σ β : Type) where
  sent : σ → List β
  taken : σ → List β

/-! ## Transfers -/

namespace Line

variable {line : Line σ β} {a b : List β} {s s' s'' : σ}

/-- The line has accepted the elements and given none. -/
structure Sends (line : Line σ β) (elements : List β) (s s' : σ) : Prop where
  sent : line.sent s' = line.sent s ++ elements
  taken : line.taken s' = line.taken s

/-- The line has given the elements and accepted none. -/
structure Takes (line : Line σ β) (elements : List β) (s s' : σ) : Prop where
  sent : line.sent s' = line.sent s
  taken : line.taken s' = line.taken s ++ elements

/-- Nothing has gone over the line. -/
def Still (line : Line σ β) (s s' : σ) : Prop := line.Takes [] s s'

theorem Sends.trans (h : line.Sends a s s') (h' : line.Sends b s' s'') :
    line.Sends (a ++ b) s s'' := by
  refine ⟨?_, h'.taken.trans h.taken⟩
  rw [h'.sent, h.sent, List.append_assoc]

theorem Takes.trans (h : line.Takes a s s') (h' : line.Takes b s' s'') :
    line.Takes (a ++ b) s s'' := by
  refine ⟨h'.sent.trans h.sent, ?_⟩
  rw [h'.taken, h.taken, List.append_assoc]

theorem Still.trans (h : line.Still s s') (h' : line.Still s' s'') : line.Still s s'' :=
  Takes.trans h h'

theorem Still.takes (h : line.Still s s') (h' : line.Takes b s' s'') : line.Takes b s s'' :=
  Takes.trans h h'

/-- A buffer has been filled up to a count, or what was taken for it is lost to an error. -/
def Fills (line : Line σ β) (fails : ε → Prop) (buffer : List β) (result : Except ε Nat × List β)
    (s s' : σ) : Prop :=
  result.2.length = buffer.length ∧
    match result.1 with
    | .ok count => count ≤ buffer.length ∧ line.Takes (result.2.take count) s s' ∧
        result.2.drop count = buffer.drop count
    | .error e => fails e ∧ ∃ lost, lost ≠ [] ∧ line.Takes lost s s'

end Line

/-! ## Loops -/

/-- `for element in buffer { match next { .. } }`. -/
def fill (next : Program σ (Except ε (Option β))) : List β → Program σ (Except ε Nat × List β)
  | [] => return (.ok 0, [])
  | old :: rest => do
    match ← next with
    | .error e => return (.error e, old :: rest)
    | .ok none => return (.ok 0, old :: rest)
    | .ok (some element) => do
      let result ← fill next rest
      return (result.1.map (· + 1), element :: result.2)

/-- The first elements of a buffer, so many as are known to wait. -/
def fillFirst (read : Program σ β) : Nat → List β → Program σ (List β)
  | 0, buffer => return buffer
  | _ + 1, [] => return []
  | n + 1, _ :: rest => do
    let element ← read
    return element :: (← fillFirst read n rest)

/-- `for element in buffer { if !ready { break; } put(element); count += 1; }`. -/
def drain (ready : Program σ Bool) (put : β → Program σ PUnit) : List β → Program σ Nat
  | [] => return 0
  | element :: rest => do
    if ← ready then
      put element
      return (← drain ready put rest) + 1
    else return 0

section

variable {line : Line σ β} {inv : σ → Prop} {fails : ε → Prop}

theorem Line.Fills.cons {element old : β} {rest : List β} {result : Except ε Nat × List β}
    {s s' s'' : σ} (htake : line.Takes [element] s s') (h : line.Fills fails rest result s' s'') :
    line.Fills fails (old :: rest) (result.1.map (· + 1), element :: result.2) s s'' := by
  obtain ⟨hlength, hrest⟩ := h
  refine ⟨congrArg (· + 1) hlength, ?_⟩
  cases hresult : result.1 with
  | error e =>
    rw [hresult] at hrest
    obtain ⟨hfails, lost, -, hlost⟩ := hrest
    exact ⟨hfails, [element] ++ lost, List.cons_ne_nil _ _, htake.trans hlost⟩
  | ok count =>
    rw [hresult] at hrest
    obtain ⟨hcount, htaken, hkept⟩ := hrest
    exact ⟨Nat.succ_le_succ hcount, htake.trans htaken, hkept⟩

end

end Serial
