import Famicom.Main
import Famicom.FlatMemory
import Famicom.PatternMemory
import Famicom.Proofs.Cpu.Refinement
import Famicom.Proofs.Cpu.Sequence
import Famicom.Proofs.Peek
import Famicom.Proofs.Transfer.Copy
import Famicom.Proofs.Transfer.Stall
import Famicom.Proofs.Transfer.Countdown
import Famicom.Proofs.Ppu.Picture
import Famicom.Proofs.Ppu.Composition
import Famicom.Proofs.Board.Operations
import Famicom.Proofs.Board.Rises
import Famicom.Proofs.Ppu.Fetches
import Famicom.Proofs.Scanlines.Activities
import Famicom.Proofs.Scanlines.Levels
import Famicom.Proofs.Scanlines.Layouts
import Famicom.Proofs.Board.PowerOn
import Famicom.Proofs.Board.WindowExchanges
import Famicom.Proofs.Loading
import Famicom.Proofs.Ppu.Blanking
import Famicom.Proofs.Cpu.Interrupts
import Famicom.Proofs.Board.SerialLine
import Famicom.Proofs.HeldButtons
import Famicom.Proofs.Cpu.Progress
import Famicom.Proofs.Cpu.Leftovers
import Famicom.Proofs.Console.Pictures
import Famicom.Proofs.Console.Restart
import Famicom.Proofs.Console.Ejection
import Famicom.Proofs.Console.Reinsertion
import Famicom.Proofs.Console.Steps
import Famicom.Proofs.Ppu.NinthSprite
import Famicom.Proofs.Board.WorkMemory
import Famicom.Proofs.Board.Bounds
import Famicom.Proofs.Ppu.DataPort
import Famicom.Proofs.Ppu.Bounds
import Famicom.Proofs.Cpu.StackFrames
import Famicom.Proofs.Cpu.LongArithmetic
import Famicom.Proofs.Cpu.Flags
import Famicom.Proofs.Cpu.Fusion
import Famicom.Proofs.Listing.StraightRuns
