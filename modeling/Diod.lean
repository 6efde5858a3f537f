import Diod.Wire.Overlong
import Diod.Transport.Connect
import Diod.Transport.Stream
import Diod.Transport.Rdmatrans
import Diod.Backend.Mounttab
import Diod.Backend.Startup
import Diod.Backend.Credential
import Diod.Backend.Lcreate
import Diod.Backend.Trails
import Diod.Backend.Locks
import Diod.Npfs.Mounts
import Diod.Npfs.Policy
import Diod.Npfs.Readdir
import Diod.Npfs.Setfsid
import Diod.Server.Userrace
import Diod.Server.Tpool
import Diod.Server.Pathpool
import Diod.Npfs.Fidmap
import Diod.Server.Connref
import Diod.Npclient.Idpool
import Diod.Npclient.Fids
import Diod.Npclient.Readdir
import Diod.Npclient.Packets
import Diod.Npclient.Gets
import Diod.Npclient.Getxattr
import Diod.Cmd.Opt
import Diod.Npfs.Npstring
import Diod.Server.Dirlock
