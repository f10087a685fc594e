import DmaLink.Word

namespace DmaLink.Layout

/-- One past the last register offset in use. -/
def registerSpan : Nat := 0x5c

/-- Bytes mapped for the register block. -/
def registerBlockBytes : Nat := 65535

/-- Bytes mapped for the source region. -/
def sourceWindowBytes : Nat := 0x800000

/-- Bytes mapped for the destination region. -/
def destinationWindowBytes : Nat := 0x800000

/-- Words in the source region. -/
def sourceWindowWords : Nat := sourceWindowBytes / wordBytes

/-- Words in the destination region. -/
def destinationWindowWords : Nat := destinationWindowBytes / wordBytes

/-- The shortest read chunk that is accepted. -/
def minReadBytes : Nat := 1024

/-- The longest read chunk that is accepted. -/
def maxReadBytes : Nat := 8388608

/-- The longest single burst. -/
def maxBurstBytes : Nat := 8388608

/-- The read chunk before the engine has been initialised. -/
def defaultReadBytes : Nat := 256

/-- Data words per burst when a payload is split, the tag word left out. -/
def defaultBurstWords : Nat := 32768

/-- The physical address of the register block. -/
def registerBase : UInt32 := 0x40400000

/-- The physical address of the source region. -/
def sourceBase : UInt32 := 0x0e000000

/-- The physical address of the destination region. -/
def destinationBase : UInt32 := 0x0f000000

/-- The first address past 32-bit physical addressing. -/
def addressLimit : Nat := 4294967296

end DmaLink.Layout
