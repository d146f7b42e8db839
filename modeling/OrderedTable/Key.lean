/-!
# Keys

A key is a string of at most `maxKeyLength` bytes. A lookup compares only as many bytes as it is
given, so it finds every key that starts with the probe.
-/

namespace OrderedTable

abbrev Key := List UInt8

/-- The length of a key is kept in one byte. -/
def maxKeyLength : Nat := 255

/-- Whether `key` is one that the probe finds: the probe's bytes are its first bytes. A probe longer
than the key finds nothing. -/
def Key.startsWith (key probe : Key) : Bool := probe.isPrefixOf key

theorem Key.startsWith_iff {key probe : Key} : key.startsWith probe = true ↔ probe <+: key := by
  simp [Key.startsWith]

end OrderedTable
