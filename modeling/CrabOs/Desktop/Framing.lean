import CrabOs.Desktop.Dragging

/-! The packets a stream of mouse bytes is taken for, and what is left of them when bytes are lost
on the way. -/
namespace CrabOs.Desktop

/-! ### Framing -/

namespace Packet

/-- No byte but the first one can start a packet. -/
structure Clean (p : Packet) : Prop where
  flags : p.flags &&& 8 ≠ 0
  x : p.x &&& 8 = 0
  y : p.y &&& 8 = 0

variable {packets : List Packet}

end Packet

/-! ### The desktop reads packets -/

variable {d : Desktop}

/-- The bytes of the packet that has begun. -/
def pending (d : Desktop) : List UInt8 := d.packet.toList.take d.packetLen

end CrabOs.Desktop
