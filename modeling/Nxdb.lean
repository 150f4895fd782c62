import Nxdb.Codec
import Nxdb.Names
import Nxdb.Continue
import Nxdb.ProcessRows
import Nxdb.Lib.Run
import Nxdb.DeltaMirror
import Nxdb.Broadcast
import Nxdb.FontTexture
import Nxdb.LateJoin
import Nxdb.Resize
import Nxdb.Blocking
import Nxdb.Reconnect
import Nxdb.ServerLoop
import Nxdb.Unmap
import Nxdb.Components
import Nxdb.Teardown
import Nxdb.RenderLoop
import Nxdb.HashWord
import Nxdb.MouseInput
import Nxdb.DisplaySize
import Nxdb.Translate
import Nxdb.ProcessList
import Nxdb.Attach
import Nxdb.Hello
import Nxdb.FontOnce
import Nxdb.Clipboard
import Nxdb.OwnBytes
import Nxdb.HashFeed
import Nxdb.HashChar
import Nxdb.Reclaim
import Nxdb.ClipboardTick
import Nxdb.PackBounds
import Nxdb.CmdRanges
import Nxdb.FieldRange
import Nxdb.Lib.Simulation
import Nxdb.Pipe
import Nxdb.InputBytes
import Nxdb.Keyboard
import Nxdb.NetworkInput
import Nxdb.MousePositions
import Nxdb.Peer
import Nxdb.ByteSystem
import Nxdb.LastFrame
import Nxdb.Lib.Heap
import Nxdb.ListMemory
import Nxdb.LostFrames
import Nxdb.HeapSystem
import Nxdb.Screen
import Nxdb.FramePacing
import Nxdb.Repack
import Nxdb.Sessions
