import Mp3Kernel.Base.BlockFile
import Mp3Kernel.Base.Runs
import Mp3Kernel.Base.Reversal
import Mp3Kernel.Base.PageWalk
import Mp3Kernel.Base.Chain
import Mp3Kernel.Base.Bitmap
import Mp3Kernel.Base.Forest
import Mp3Kernel.Base.TextScreen
import Mp3Kernel.Base.LinkedList
import Mp3Kernel.Base.Areas
import Mp3Kernel.Base.RoundRobin
import Mp3Kernel.Model.System
import Mp3Kernel.Model.Files
import Mp3Kernel.Proofs.ReadData
import Mp3Kernel.Proofs.Slots
import Mp3Kernel.Proofs.Protection
import Mp3Kernel.Proofs.Atomicity
import Mp3Kernel.Proofs.Coherence
import Mp3Kernel.Proofs.Nesting
import Mp3Kernel.Proofs.Binding
import Mp3Kernel.Proofs.VideoMap
import Mp3Kernel.Proofs.Context
import Mp3Kernel.Proofs.Cursor
import Mp3Kernel.Proofs.Multiplex
import Mp3Kernel.Proofs.Isolation
import Mp3Kernel.Proofs.LineBuffer
import Mp3Kernel.Proofs.Delivery
import Mp3Kernel.Proofs.KeyStates
import Mp3Kernel.Proofs.Decoding
import Mp3Kernel.Proofs.Editing
import Mp3Kernel.Proofs.Descriptors
import Mp3Kernel.Proofs.FileReads
import Mp3Kernel.Proofs.Directory
import Mp3Kernel.Proofs.ExitStatus
import Mp3Kernel.Proofs.Relaunch
import Mp3Kernel.Proofs.Vidmap
import Mp3Kernel.Proofs.OnePage
import Mp3Kernel.Proofs.FreshSpace
import Mp3Kernel.Model.Clock
import Mp3Kernel.Model.Itoa
import Mp3Kernel.Proofs.Rates
import Mp3Kernel.Proofs.RtcReads
import Mp3Kernel.Proofs.Names
import Mp3Kernel.Proofs.Listing
import Mp3Kernel.Proofs.Command
import Mp3Kernel.Proofs.LineRead
import Mp3Kernel.Proofs.LaunchSound
import Mp3Kernel.Proofs.Numerals
import Mp3Kernel.Model.Blink
import Mp3Kernel.Model.MemOps
import Mp3Kernel.Model.Printf
import Mp3Kernel.Proofs.Blinks
import Mp3Kernel.Proofs.BlinkPhases
import Mp3Kernel.Proofs.Copying
import Mp3Kernel.Proofs.Fairness
import Mp3Kernel.Proofs.Formats
import Mp3Kernel.Proofs.Echo
import Mp3Kernel.Base.Programs
import Mp3Kernel.Model.Programs
import Mp3Kernel.Proofs.Texts
import Mp3Kernel.Proofs.Userland
import Mp3Kernel.Proofs.Started
import Mp3Kernel.Proofs.Cat
import Mp3Kernel.Proofs.Support
import Mp3Kernel.Proofs.Grep
import Mp3Kernel.Model.Fish
import Mp3Kernel.Proofs.Frames
import Mp3Kernel.Proofs.Animation
import Mp3Kernel.Base.Ia32
import Mp3Kernel.Base.Pic
import Mp3Kernel.Model.Entry
import Mp3Kernel.Model.Pic
import Mp3Kernel.Proofs.Entry
import Mp3Kernel.Proofs.Exceptions
import Mp3Kernel.Proofs.Pic
import Mp3Kernel.Proofs.SystemCall
import Mp3Kernel.Proofs.Gates
