import Chip8.Emulation
import Chip8.Main
import Chip8.Proofs.Decoding
import Chip8.Proofs.Execution
import Chip8.Proofs.Cycles
import Chip8.Proofs.Faults
import Chip8.Proofs.HexText
import Chip8.Proofs.Histories
import Chip8.Proofs.KeyWait
import Chip8.Proofs.Subroutines
import Chip8.Proofs.Redraw
import Chip8.Proofs.Sessions
import Chip8.Proofs.Pictures
import Chip8.Proofs.Restarts
import Chip8.Proofs.Bare.Guarded
import Chip8.Proofs.Bare.Machine
import Chip8.Proofs.Bare.Agreement
import Chip8.Proofs.Bare.Safety
import Chip8.Proofs.Footprints
import Chip8.Proofs.ProgramCounter
import Chip8.Proofs.Peripherals
import Chip8.Proofs.Interleavings
import Chip8.Proofs.StalePresses
import Chip8.Proofs.TimerDecay
import Chip8.Proofs.RandomBytes
import Chip8.Proofs.Sprites
import Chip8.Proofs.Halting
import Chip8.Proofs.Tones
import Chip8.Proofs.Suspension
import Chip8.Proofs.Arithmetic
import Chip8.Proofs.Hits
import Chip8.Proofs.StoredBytes
import Chip8.Proofs.Alignment
import Chip8.Proofs.Rates
import Chip8.Proofs.Glyphs
import Chip8.Proofs.Layouts
import Chip8.Proofs.Specificity
import Chip8.Proofs.Screens
import Chip8.Proofs.Layers
import Chip8.Proofs.TraceLines
import Chip8.Proofs.Traces
import Chip8.Proofs.KeyHistory
import Chip8.Proofs.LastWrites
