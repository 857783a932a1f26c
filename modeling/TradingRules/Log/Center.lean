import TradingRules.Value.Arithmetic

/-!
# Log centre

Log entries of each logic are kept in a buffer of its own, which holds the latest entries up to a
bound that all buffers share.
-/

namespace TradingRules.Log

structure Entry where
  time : String
  title : Value
  message : Value
  deriving Inhabited

def Entry.toValue (e : Entry) : Value :=
  .object [("ts", .text e.time), ("title", e.title), ("message", e.message)]

structure Center where
  bound : Outcome Nat
  buffers : List (Value × List Entry) := []

namespace Center

def usualBound : Nat := 500

/-- The bound by a value, where one that counts as false stands for the usual bound. -/
def boundOf (v : Value) : Outcome Nat :=
  (v.orElse (.int usualBound)).toBound

def new (bound : Value) : Center :=
  { bound := boundOf bound }

def entries (c : Center) (id : Value) : List Entry :=
  ((c.buffers.find? fun b => b.1.isSame id).map (·.2)).getD []

def keepLast (bound : Nat) (entries : List Entry) : List Entry :=
  entries.drop (entries.length - bound)

def append (c : Center) (bound : Nat) (id : Value) (e : Entry) : Center :=
  let extended := keepLast bound (c.entries id ++ [e])
  { c with
    buffers := if c.buffers.any fun b => b.1.isSame id
      then c.buffers.map fun b => if b.1.isSame id then (b.1, extended) else b
      else c.buffers ++ [(id, extended)] }

def log (c : Center) (time : String) (id title message : Value) : Outcome Unit × Center :=
  if !id.isKey then (.error (.unhashable id), c)
  else match c.bound with
    | .error e => (.error e, c)
    | .ok bound => (.ok (), c.append bound id ⟨time, title, message⟩)

/-- A function that logs under one id, whatever the log centre holds by then. -/
def sinkFor (id : Value) (time : String) (title message : Value) (c : Center) :
    Outcome Unit × Center :=
  c.log time id title message

/-- Removes the buffer of an id, which is looked at only if there are any. -/
def clear (c : Center) (id : Value) : Outcome Unit × Center :=
  if c.buffers.isEmpty then (.ok (), c)
  else if !id.isKey then (.error (.unhashable id), c)
  else (.ok (), { c with buffers := c.buffers.filter fun b => !b.1.isSame id })

/-- The entries from an offset counted from the end; a negative one counts from the start. -/
def tail (limit : Int) (entries : List Entry) : List Entry :=
  if limit ≥ 0 then keepLast limit.toNat entries else entries.drop (-limit).toNat

/-- The entries under an id; a limit other than null and zero takes the last ones. -/
def latest (c : Center) (id limit : Value) : Outcome (List Entry) :=
  if !id.isKey then .error (.unhashable id)
  else if !limit.isTruthy then .ok (c.entries id)
  else match limit with
    | .int n => .ok (tail n (c.entries id))
    | .bool _ => .ok (tail 1 (c.entries id))
    | .real _ | .undefined _ => .error (.wrongKind
        "slice indices must be integers or None or have an __index__ method")
    | v => .error (.wrongKind s!"bad operand type for unary -: '{v.kindName}'")

end Center

end TradingRules.Log
