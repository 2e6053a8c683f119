import C64X25519.Model.Machine
import C64X25519.Model.Rows
/-!
# The presence check

`reu_probe`: the byte at the start of bank `X25519_REU_BANK + 7` read,
overwritten with a pattern, read back and restored, between saving and
restoring the registers of the unit.
-/

namespace C64X25519

open Machine

variable (B : Build)

/-- `LDA reu_…` / `STA @save_…`. -/
def saveReg (x : Reg) (v : Var) (s : Machine) : Machine :=
  let p := s.readReg x
  p.2.setVar v p.1

/-- One of the four transfers of a single byte, between `@scratch` and the
probed byte. -/
def probeTransfer (cmd : Byte) (s : Machine) : Machine :=
  let s := writeC64 B.mem.probeScratch s
  let s := ((s.writeReg .reuLo 0).writeReg .reuHi 0).writeReg .addrCtrl 0
  let s := s.writeReg .reuBank (BitVec.ofNat 8 (7 + B.reuBank))
  let s := (s.writeReg .lenLo 1).writeReg .lenHi 0
  reuSettle B (s.reuCommand cmd)

/-- The registers saved at the entry. -/
def probeSave (s : Machine) : Machine :=
  let s := saveReg .c64Hi .saveC64Hi (saveReg .c64Lo .saveC64Lo s)
  let s := saveReg .reuHi .saveReuHi (saveReg .reuLo .saveReuLo s)
  let s := saveReg .reuBank .saveReuBank s
  saveReg .lenHi .saveLenHi (saveReg .lenLo .saveLenLo s)

/-- And written back before the result is looked at. -/
def probeRestore (s : Machine) : Machine :=
  let s := s.writeReg .c64Lo (s.var .saveC64Lo)
  let s := s.writeReg .c64Hi (s.var .saveC64Hi)
  let s := s.writeReg .reuLo (s.var .saveReuLo)
  let s := s.writeReg .reuHi (s.var .saveReuHi)
  let s := s.writeReg .reuBank (s.var .saveReuBank)
  let s := s.writeReg .lenLo (s.var .saveLenLo)
  let s := s.writeReg .lenHi (s.var .saveLenHi)
  s.writeReg .addrCtrl 0

/-- The byte fetched, the pattern stashed over it. -/
def probePattern (s : Machine) : Machine :=
  let s := probeTransfer B 0b10010001 s
  let s := s.setVar .origByte (s.ram B.mem.probeScratch)
  let s := s.setRam B.mem.probeScratch 0x5a
  probeTransfer B 0b10010000 s

/-- The pattern read back into a cell that does not hold it, the byte
stashed back. -/
def probeReadBack (s : Machine) : Machine :=
  let s := s.setRam B.mem.probeScratch 0
  let s := probeTransfer B 0b10010001 s
  let s := s.setVar .rtByte (s.ram B.mem.probeScratch)
  let s := s.setRam B.mem.probeScratch (s.var .origByte)
  probeTransfer B 0b10010000 s

/-- `reu_probe`, with the carry it returns. -/
def reuProbe (s : Machine) : Bool × Machine :=
  let s := probeSave (s.setVar .x25519ReuFault 0)
  let s := probeRestore (probeReadBack B (probePattern B s))
  -- the pattern must have come back, and no settle have recorded a fault
  (decide (s.var .rtByte = 0x5a) && decide (s.var .x25519ReuFault = 0), s)

end C64X25519
