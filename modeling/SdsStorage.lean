import SdsStorage.Hash
import SdsStorage.Blocks
import SdsStorage.HashTail
import SdsStorage.Slice
import SdsStorage.Utils
import SdsStorage.ReadSchedule
import SdsStorage.WriteSchedule
import SdsStorage.SliceRun
import SdsStorage.CVector
import SdsStorage.VectorRun
import SdsStorage.LinkedList
import SdsStorage.DoublyLinked
import SdsStorage.ListRun
import SdsStorage.ListDestroy
import SdsStorage.FileSystem
import SdsStorage.Bucket
import SdsStorage.BucketRun
import SdsStorage.Bucketset
import SdsStorage.HashRange
import SdsStorage.FirstMatch
import SdsStorage.Request
import SdsStorage.ConfDecode
import SdsStorage.SdsStore
import SdsStorage.NetSocket
import SdsStorage.Routing
import SdsStorage.ObjectRequest
import SdsStorage.Handshake
import SdsStorage.Client
import SdsStorage.Fields
import SdsStorage.DataFilePath
import SdsStorage.Placement
import SdsStorage.PutStatus
import SdsStorage.DataFile
import SdsStorage.Response
import SdsStorage.Md5Update
import SdsStorage.Md5Digest
import SdsStorage.Md5File
import SdsStorage.Md5Read
import SdsStorage.ServerNames
import SdsStorage.LogPrintf
import SdsStorage.LogLine
import SdsStorage.FieldUse
import SdsStorage.ClientStatus
import SdsStorage.ClientLoop
import SdsStorage.ReadCalls
import SdsStorage.Heap
import SdsStorage.Connections
import SdsStorage.SliceHeap
import SdsStorage.VectorHeap
import SdsStorage.LogText
import SdsStorage.Startup
import SdsStorage.ClientMain
import SdsStorage.Descriptors
import SdsStorage.LogFile
import SdsStorage.PeerName
import SdsStorage.ServerFiles
