/-!
# Notices

A `Notice` is what a container reports about its own life: that it has been made, that it has been
taken down, that it drops an item to make room.
-/

namespace OrderedTable

/-- How much a notice matters. -/
inductive Notice.Level
  | debug
  | trace

/-- A report of a container about itself. -/
inductive Notice
  /-- A table has been built. -/
  | created (buckets bits : Nat)
  /-- A table that held `entries` has been taken down. -/
  | destroyed (entries buckets : Nat)
  /-- A deque that may hold `maxItems` drops its head. -/
  | evicting (maxItems : Nat)
  deriving DecidableEq

namespace Notice

def Level.name : Level → String
  | debug => "DEBUG"
  | trace => "TRACE"

/-- Tables report at debug level, deques at trace level. -/
def level : Notice → Level
  | created .. => .debug
  | destroyed .. => .debug
  | evicting .. => .trace

def message : Notice → String
  | created buckets bits => s!"Created assoc array with {buckets} buckets ({bits} bits)"
  | destroyed entries buckets =>
    s!"Destroyed assoc array, released {entries} entries from {buckets} buckets"
  | evicting maxItems => s!"Deque full ({maxItems} items), evicting head"

def line (n : Notice) : String := n.level.name ++ " " ++ n.message

end Notice

end OrderedTable
