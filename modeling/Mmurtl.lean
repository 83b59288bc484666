import Mmurtl.Scheduler.Fairness
import Mmurtl.Scheduler.Reaper
import Mmurtl.Arm64.Asids
import Mmurtl.Memory.SlabFrees
import Mmurtl.Memory.FrameSearch
import Mmurtl.User.Slots
import Mmurtl.Console.Input
import Mmurtl.Shell.Parse
import Mmurtl.Topology.Admission
import Mmurtl.Scheduler.Queued
import Mmurtl.Amd64.Predictor
import Mmurtl.Syscall.Rqb
import Mmurtl.Virtio.Net
import Mmurtl.Memory.StackLookup
import Mmurtl.Fat.Codec
import Mmurtl.Fat.Naming
import Mmurtl.Fat.Buffers
import Mmurtl.Fat.Remount
import Mmurtl.User.Bounds
import Mmurtl.Exfat.Chain
