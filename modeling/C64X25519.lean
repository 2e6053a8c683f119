import C64X25519.Properties.Agreement
import C64X25519.Properties.Boot
import C64X25519.Properties.Deferral
import C64X25519.Properties.Fault
import C64X25519.Properties.Fetch
import C64X25519.Properties.Field
import C64X25519.Properties.Footprint
import C64X25519.Properties.History
import C64X25519.Properties.Ladder
import C64X25519.Properties.Probe
import C64X25519.Properties.Program
import C64X25519.Properties.Reduction
import C64X25519.Properties.Relocation
import C64X25519.Properties.Rows
import C64X25519.Properties.Tables
import C64X25519.Properties.Timing
